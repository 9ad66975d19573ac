import Backend65816.Proofs.LoweringLoops

/-!
# Code that leaves

A break or a continue jumps to a block of the loop that it names, and a return ends the run. The
first break with a value makes a register for the values of the loop, to which every break of the
loop copies its value.
-/

namespace Backend65816

open Draft Lower List

variable {code : ExprCode} {type : Ty} {value : TypedReg}

variable {unit : CompilationUnit} {sig : Signature} {names : List String} {label : String}
  {draft after : Draft} {loop : EnclosingLoop}

variable {around : Surroundings} {reg : VReg}

/-! ## Breaks without a value and continues -/

theorem Lower.targetLoop_ok {what : String}
    (ran : targetLoop label what around draft = .ok (loop, after)) :
    draft.findLoop? label = some loop ∧ draft = after := by
  unfold targetLoop at ran
  rw [get_bind] at ran
  cases found : draft.findLoop? label with
  | some other =>
    rw [found] at ran
    cases ran
    exact ⟨rfl, rfl⟩
  | none =>
    rw [found] at ran
    grind [fail_ne]

section Jumps

variable {α : Type} {extent : Extent} {start : Draft} {pre : GraphState → Prop}
  {goal : α → GraphPoint → Prop}

/-- What names hold behind code is what they hold at its end, where a jump leaves it. -/
theorem Agrees.outside {env : Env} {state : GraphState} (agrees : Agrees unit start.scopes env state)
    (scopes : start.scopes.drop extent.cut = extent.base.scopes.drop extent.cut)
    (target : BlockId) : Outside unit extent state target env ⟨target, 0, state⟩ where
  block := rfl
  position := rfl
  agrees := scopes ▸ agrees.drop extent.cut
  keeps := .refl _ _ _

variable (wf : start.WellFormed unit) (found : start.findLoop? label = some loop)
  (scopes : start.scopes.drop extent.cut = extent.base.scopes.drop extent.cut)
include wf found scopes

theorem Runs.leave {value : Option Int}
    (carries : ∀ {state}, pre state → loop.Carries unit state value) :
    Runs unit extent start (start.terminate (.jump loop.exit)) pre
      (Eval.exit (.leave label value)) goal := by
  intro graph args fuel env state completes alive agrees holds
  refine ⟨1, ⟨loop.exit, 0, state⟩, .single (completes.step_terminate wf alive rfl), loop, ?_,
    carries holds, agrees.outside scopes loop.exit⟩
  rw [terminate_loops]
  exact found

theorem Runs.proceed : Runs unit extent start (start.terminate (.jump loop.next)) pre
      (Eval.exit (.proceed label)) goal := by
  intro graph args fuel env state completes alive agrees holds
  refine ⟨1, ⟨loop.next, 0, state⟩, .single (completes.step_terminate wf alive rfl),
    Nat.one_pos, loop, ?_, agrees.outside scopes loop.next⟩
  rw [terminate_loops]
  exact found

end Jumps

namespace Draft

/-- The draft in which a loop has a break without a value. -/
def noteBare (draft : Draft) (exit : BlockId) : Draft :=
  draft.modifyLoop exit fun loop => { loop with hasBare := true }

/-- The draft in which a loop has a break with a value. -/
def noteValued (draft : Draft) (exit : BlockId) : Draft :=
  draft.modifyLoop exit fun loop => { loop with hasValued := true }

variable {rule : RegisterRule}

section

variable (wf : draft.WellFormed rule)
include wf

theorem WellFormed.noteBare (exit : BlockId) : draft.Adds (draft.noteBare exit) rule where
  toEvolves := wf.evolves.modifyFlags
    (fun _ => ⟨rfl, rfl, rfl, fun known => ⟨known, rfl⟩, id, fun _ => rfl⟩)
    (fun _ => rfl) fun _ => rfl
  scopes := rfl

theorem WellFormed.noteValued (exit : BlockId) : draft.Adds (draft.noteValued exit) rule where
  toEvolves := wf.evolves.modifyFlags
    (fun _ => ⟨rfl, rfl, rfl, fun known => ⟨known, rfl⟩, fun _ => rfl, id⟩)
    (fun _ => rfl) fun _ => rfl
  scopes := rfl

variable (found : draft.findLoop? label = some loop)
include found

theorem WellFormed.typing_noteBare : (draft.noteBare loop.exit).typing =
      draft.typing.modifyLoop label fun loop => { loop with hasBare := true } :=
  wf.typing_modifyLoop found fun _ => rfl

theorem WellFormed.typing_noteValued : (draft.noteValued loop.exit).typing =
      draft.typing.modifyLoop label fun loop => { loop with hasValued := true } :=
  wf.typing_modifyLoop found fun _ => rfl

end

end Draft

theorem executes_leave (label : String) :
    Executes unit sig names (Lower.leave label none) (.leave label) := by
  intro around draft after belong wf ran
  obtain ⟨loop, _, targeted, executed⟩ := bind_ok.mp ran
  obtain ⟨found, rfl⟩ := targetLoop_ok targeted
  cases executed
  have noted := wf.noteBare loop.exit
  have found' : (draft.noteBare loop.exit).findLoop? label = some { loop with hasBare := true } :=
    Draft.find?_map_exit found fun _ => rfl
  refine ⟨.exit (.leave label none), ?_, (noted.terminate _).toEvolves,
    congrArg (List.drop 1) (noted.terminate (.jump loop.exit)).scopes, ?_⟩
  · change _ = (_, ((draft.noteBare loop.exit).terminate _).typing)
    rw [noted.wellFormed.typing_terminate, wf.typing_noteBare found]
    rfl
  · exact @Runs.leave unit label _ Unit ⟨draft, names, 1⟩ (draft.noteBare loop.exit) _ _
      noted.wellFormed found' rfl none fun _ => rfl

theorem executes_proceed (label : String) :
    Executes unit sig names (Lower.proceed label) (.proceed label) := by
  intro around draft after belong wf ran
  obtain ⟨loop, _, targeted, ran⟩ := bind_ok.mp ran
  obtain ⟨found, rfl⟩ := targetLoop_ok targeted
  cases ran
  refine ⟨.exit (.proceed label), ?_, wf.terminate _, ?_, .proceed wf found rfl⟩
  · rw [wf.typing_terminate]
    rfl
  · rw [terminate_scopes]

/-! ## Breaks with a value -/

namespace Draft

/-- The draft in which a loop has a register for its values. -/
def addLoopResult (draft : Draft) (exit : BlockId) (type : Ty) (info : VRegInfo) : Draft :=
  (draft.addReg info).modifyLoop exit fun loop =>
    { loop with type, result := some draft.vregs.size }

end Draft

theorem Lower.loopResult_ok (ran : loopResult loop value around draft = .ok (reg, after)) :
    loop.result = some reg ∧ value.type = loop.type ∧ draft = after ∨
      ∃ width, loop.result = none ∧ around.context.unit.width? value.type = some width ∧
        reg = draft.vregs.size ∧ after = draft.addLoopResult loop.exit value.type
          { name := "loop", width, signed := value.type.isSigned } := by
  unfold loopResult at ran
  cases known : loop.result with
  | some own =>
    rw [known] at ran
    simp only at ran
    split at ran
    · next same =>
      cases ran
      exact .inl ⟨rfl, same, rfl⟩
    · exact absurd ran fail_ne
  | none =>
    rw [known] at ran
    simp only at ran
    obtain ⟨-, ran⟩ := guard_ok.mp ran
    obtain ⟨own, _, made, ran⟩ := bind_ok.mp ran
    obtain ⟨width, _, sized, made⟩ := bind_ok.mp made
    obtain ⟨width_eq, rfl⟩ := widthOf_ok sized
    cases made
    cases ran
    exact .inr ⟨width, rfl, width_eq, rfl, rfl⟩

theorem modifyTarget_of_same {change : LoopTyping → LoopTyping} {loops : List LoopTyping}
    {loop : LoopTyping} (found : loops.find? (fun loop => labelFits label loop.label) = some loop)
    (same : change loop = loop) : modifyTarget label change loops = loops := by
  induction loops with
  | nil => rfl
  | cons first outer ih =>
    rw [modifyTarget]
    grind

namespace Draft

variable {rule : RegisterRule}

/-- The values of a loop are of a type, and there is a register for them. -/
structure Delivers (draft : Draft) (label : String) (loop : EnclosingLoop) (value : TypedReg) :
    Prop where
  found : draft.findLoop? label = some loop
  result : loop.result = some value.register
  type_eq : loop.type = value.type
  valued : loop.hasValued = true

variable (wf : draft.WellFormed rule)
include wf

theorem WellFormed.addLoopResult (found : draft.findLoop? label = some loop)
    (empty : loop.result = none) {info : VRegInfo} (fits : rule.fits type info) :
    draft.Adds (draft.addLoopResult loop.exit type info) rule where
  toEvolves := by
    have reserved := Reserved.addReg wf fits
    refine (wf.addReg info).modifyResult ?_ reserved.typed le_rfl reserved.unowned
    intro other mem same
    rw [eq_of_exit_eq wf.exits mem (mem_of_findLoop? found) same]
    exact empty
  scopes := rfl

end Draft

theorem Lower.loopResult_delivers (wf : draft.WellFormed unit) (belong : around.Belong unit sig)
    (hasValues : value.type.hasValues = true) (found : draft.findLoop? label = some loop)
    (valued : loop.hasValued = true) (ran : loopResult loop value around draft = .ok (reg, after)) :
    draft.Adds after unit ∧ after.typing = draft.typing.modifyLoop label (fun typing =>
        { typing with type := value.type }) ∧
      (∀ {post : GraphState → Prop} {point : GraphPoint},
        draft.Arrives post point → after.Arrives post point) ∧
      ∃ later, later.exit = loop.exit ∧ after.Delivers label later { value with register := reg } := by
  rcases loopResult_ok ran with ⟨known, type_eq, rfl⟩ | ⟨width, empty, width_eq, rfl, rfl⟩
  · refine ⟨wf.adds, ?_, id, loop, rfl, found, known, type_eq.symm, valued⟩
    have target : draft.typing.loops.find? (fun loop => labelFits label loop.label) =
        some loop.typing := by
      rw [Draft.typing, List.find?_map]
      exact congrArg (Option.map EnclosingLoop.typing) found
    rw [type_eq, Typing.modifyLoop, modifyTarget_of_same target rfl]
  · rw [belong.unit] at width_eq
    refine ⟨wf.addLoopResult found empty ⟨hasValues, width_eq, rfl⟩,
      (wf.addReg _).wellFormed.typing_modifyLoop found fun _ => rfl, id,
      { loop with type := value.type, result := some draft.vregs.size }, rfl, ?_, rfl, rfl, valued⟩
    exact Draft.find?_map_exit found fun _ => rfl

theorem runs_deliver {base : Draft} (wf : draft.WellFormed unit) (leads : base.Leads draft)
    (scopes : draft.scopes = base.scopes)
    (delivers : draft.Delivers label loop { value with register := reg }) {due : List String}
    {num : Int} {goal : Unit → GraphPoint → Prop} :
    Runs unit ⟨base, names, 1⟩ draft
      ((draft.emit (.move reg value.register)).terminate (.jump loop.exit))
      (draft.Provides unit due value num) (Eval.exit (.leave label (some num))) goal := by
  have mem := mem_of_findLoop? delivers.found
  obtain ⟨nonzero, info, known, _, width_eq, _⟩ := wf.results mem delivers.result
  have emitted := wf.adds.emit (.move reg value.register)
  have width_eq : unit.width? value.type = some info.width := delivers.type_eq ▸ width_eq
  have copied : Runs unit ⟨base, names, 1⟩ draft (draft.emit (.move reg value.register))
      (draft.Provides unit due value num) (pure ()) fun _ =>
        (draft.emit (.move reg value.register)).Arrives fun state =>
          state.registers reg = num ∧ unit.Holds value.type num := by
    refine .step fun {graph args fuel env state} completes alive agrees provides => ?_
    have graph_width : graph.width reg = info.width :=
      (emitted.toLeads.completes completes).width_eq known
    have acts : graph.act args state (.move reg value.register) =
        some (state.write info.width reg num) := by
      rw [← provides.content, ← graph_width]
      rfl
    have holds := provides.holds
    rw [CompilationUnit.Holds, CompilationUnit.widthOf, width_eq] at holds
    refine ⟨(), env, _, rfl, completes.step_emit wf alive acts, ?_, ?_, ?_, rfl,
      (GraphState.write_self ..).trans holds, provides.holds⟩
    · rw [emit_scopes]
      refine agrees.write (fun scope scope_mem entry entry_mem same => ?_) nonzero _ _
      have apart := (nodup_append.mp wf.distinct).2.2
      exact apart _ (mem_map.mpr ⟨entry, mem_flatten.mpr ⟨scope, scope_mem, entry_mem⟩, rfl⟩)
        _ (mem_filterMap.mpr ⟨loop, mem, delivers.result⟩) same
    · intro other below fixed
      refine GraphState.write_of_ne _ fun same => fixed (leads.changes below (.inl ?_))
      exact ⟨loop, mem, same ▸ delivers.result⟩
    · rw [wf.isDead_emit]
      exact alive
  have found : (draft.emit (.move reg value.register)).findLoop? label = some loop := by
    rw [Draft.findLoop?, emit_loops]
    exact delivers.found
  refine copied.prepare (.leave emitted.wellFormed found ?_ ?_)
    (emitted.wellFormed.terminate _).toLeads
  · rw [emit_scopes, scopes]
  · rintro state ⟨content, holds⟩
    exact ⟨delivers.valued, reg, delivers.result, content, delivers.type_eq ▸ holds⟩

theorem executes_leaveWith {meaning : Meaning}
    (computes : Computes unit sig names code.value meaning) (label : String) :
    Executes unit sig names (Lower.leave label (some code)) (.leaveWith label meaning) := by
  intro around draft after belong wf ran
  obtain ⟨loop, _, targeted, executed⟩ := bind_ok.mp ran
  obtain ⟨found, rfl⟩ := targetLoop_ok targeted
  simp only at executed
  split at executed
  · exact absurd executed fail_ne
  unfold Lower.leaveWith at executed
  rw [modify_bind] at executed
  obtain ⟨value, mid, computed, executed⟩ := bind_ok.mp executed
  have noted := wf.noteValued loop.exit
  obtain ⟨run, typed, adds, runs⟩ := computes belong noted.wellFormed computed
  rw [wf.typing_noteValued found, ← typing_loopType found] at typed
  have runs : Runs unit ⟨draft, names, 1⟩ draft mid (fun _ => True) run
      (mid.Supplies unit around.pending value) :=
    (runs.behind noted).inStatement
  unfold StmtMeaning.leaveWith
  rw [Typed.get_bind, Typed.modify_bind, Typed.bind_eq typed]
  split at executed
  · next diverges =>
    cases executed
    have never := TypedReg.diverges_iff.mp diverges
    simp only [never]
    exact ⟨_, rfl, (noted.trans adds).toEvolves,
      congrArg (List.drop 1) (noted.trans adds).scopes, (runs.never never).bind_never⟩
  · next completes =>
    rw [TypedReg.diverges_iff] at completes
    split at executed
    · exact absurd executed fail_ne
    next valued =>
    obtain ⟨later, _, targeted, executed⟩ := bind_ok.mp executed
    obtain ⟨found', rfl⟩ := targetLoop_ok targeted
    obtain ⟨reg, resulted, made, executed⟩ := bind_ok.mp executed
    obtain rfl := terminate_ok executed
    have noted_valued : later.hasValued = true := by
      have found'' : (draft.noteValued loop.exit).findLoop? label =
          some { loop with hasValued := true } := Draft.find?_map_exit found fun _ => rfl
      obtain ⟨same, found'', grows⟩ := adds.toLeads.loops.find found''
      obtain rfl : later = same := Option.some.inj (found'.symm.trans found'')
      exact grows.valued rfl
    obtain ⟨added, typing_eq, arrives, last, exit_eq, delivers⟩ := loopResult_delivers
      adds.wellFormed
      belong (Ty.hasValues_iff.mpr ⟨valued, completes⟩) found' noted_valued made
    have wf' := added.wellFormed
    have emitted := wf'.adds.emit (.move reg value.register)
    have closed := emitted.terminate (.jump later.exit)
    have all := (noted.trans adds).trans added
    simp only [completes]
    refine ⟨_, Prod.ext rfl ?_, (all.trans closed).toEvolves,
      congrArg (List.drop 1) (all.trans closed).scopes, ?_⟩
    · rw [emitted.wellFormed.typing_terminate, wf'.typing_emit, typing_eq]
      rfl
    · have supplied : Runs unit ⟨draft, names, 1⟩ draft resulted (fun _ => True) run
          (resulted.Supplies unit around.pending value) := by
        refine (runs.later added.toLeads added.scopes).post ?_
        rintro num point ⟨alive, here_eq, provides⟩
        exact arrives ⟨alive, here_eq, provides.of_leads adds.wellFormed added.toLeads⟩
      refine supplied.bind (fun num => ?_) closed.toLeads
      rw [← exit_eq]
      exact runs_deliver wf' all.toLeads all.scopes delivers

end Backend65816
