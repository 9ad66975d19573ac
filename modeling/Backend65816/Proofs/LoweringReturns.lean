import Backend65816.Proofs.Conventions
import Backend65816.Proofs.LoweringExits

/-!
# Code of returns

The values of a return are computed in order and then copied to registers fixed to the places of the
convention, in the order in which places are filled. Every copy has a register of its own, so that
the order does not matter to the values.
-/

namespace Backend65816

open List Function Nat Lower

variable {draft after : Draft} {expressions : List Expr} {slots returns : List ReturnSlot}
  {around : Surroundings} {α β : Type}

variable {unit : CompilationUnit} {sig : Signature} {names : List String}

/-! ## Copies -/

namespace Draft

/-- The draft with code that copies registers to new ones, which get the next numbers. -/
def copyAll (draft : Draft) : List (VRegInfo × VReg) → Draft
  | [] => draft
  | (info, source) :: rest =>
    (draft.addResult info (.move draft.vregs.size source)).copyAll rest

variable {rule : RegisterRule}

theorem addResult_size (draft : Draft) (info : VRegInfo) (action : Action) :
    (draft.addResult info action).vregs.size = draft.vregs.size + 1 := by
  rw [addResult_vregs, Array.size_push]

theorem WellFormed.copyAll (wf : draft.WellFormed rule) (copies : List (VRegInfo × VReg)) :
    draft.Adds (draft.copyAll copies) rule ∧ (draft.copyAll copies).typing = draft.typing := by
  induction copies generalizing draft with
  | nil => exact ⟨wf.adds, rfl⟩
  | cons copy rest ih =>
    have added := wf.adds.addResult copy.1 (.move draft.vregs.size copy.2)
    obtain ⟨copied, typing_eq⟩ := ih added.wellFormed
    exact ⟨added.trans copied, typing_eq.trans (wf.typing_addResult _ _)⟩

end Draft

theorem Lower.copyAll_ok {steps : α → Lower β} (copy : α → VRegInfo × VReg) {made : α → VReg → β}
    (copies : ∀ {item draft res after}, steps item around draft = .ok (res, after) →
      res = made item draft.vregs.size ∧
        after = draft.addResult (copy item).1 (.move draft.vregs.size (copy item).2))
    {items : List α} {results : List β}
    (ran : items.mapM steps around draft = .ok (results, after)) :
    results = (items.mapIdx fun idx item => made item (draft.vregs.size + idx)) ∧
      after = draft.copyAll (items.map copy) := by
  induction items generalizing draft results with
  | nil =>
    cases ran
    exact ⟨rfl, rfl⟩
  | cons item rest ih =>
    rw [mapM_cons] at ran
    obtain ⟨res, mid, first, ran⟩ := bind_ok.mp ran
    obtain ⟨others, _, lowered', same⟩ := bind_ok.mp ran
    cases same
    obtain ⟨rfl, rfl⟩ := copies first
    obtain ⟨rfl, rfl⟩ := ih lowered'
    refine ⟨?_, rfl⟩
    rw [Draft.addResult_size]
    grind

theorem runs_copy (wf : draft.WellFormed unit) (info : VRegInfo) {src : VReg}
    (below : src < draft.vregs.size) (old : VReg → Int) :
    Runs unit ⟨draft, names, 0⟩ draft (draft.addResult info (.move draft.vregs.size src))
      (fun state => ∀ reg < draft.vregs.size, state.registers reg = old reg)
      (pure ()) fun _ => (draft.addResult info (.move draft.vregs.size src)).Arrives fun state =>
        ∀ reg < draft.vregs.size + 1, state.registers reg =
          Function.update old draft.vregs.size (info.width.truncate (old src)) reg := by
  have added := wf.addReg info
  refine .step fun {graph args fuel env state} completes alive agrees holds => ?_
  have known : (draft.addReg info).vregs[draft.vregs.size]? = some info := Array.getElem?_push_size
  have width_eq : graph.width draft.vregs.size = info.width :=
    ((added.wellFormed.emit _).toLeads.completes completes).width_eq known
  have acts : graph.act args state (.move draft.vregs.size src) =
      some (state.write info.width draft.vregs.size (old src)) := by
    rw [← holds src below, ← width_eq]
    rfl
  refine ⟨(), env, _, rfl, completes.step_emit added.wellFormed alive acts, ?_,
    .write_new le_rfl _ _, ?_, rfl, ?_⟩
  · rw [Draft.addResult_scopes]
    exact agrees.write_new wf le_rfl _ _
  · exact added.wellFormed.isDead_emit.trans alive
  · intro reg inside
    by_cases same : reg = draft.vregs.size
    · rw [same, update_self]
      exact GraphState.write_self ..
    · rw [update_of_ne same, ← holds reg (by omega)]
      exact GraphState.write_of_ne _ same

theorem runs_copyAll (wf : draft.WellFormed unit) {copies : List (VRegInfo × VReg)}
    (below : ∀ copy ∈ copies, copy.2 < draft.vregs.size) (old : VReg → Int) :
    Runs unit ⟨draft, names, 0⟩ draft (draft.copyAll copies)
      (fun state => ∀ reg < draft.vregs.size, state.registers reg = old reg)
      (pure ()) fun _ => (draft.copyAll copies).Arrives fun state =>
        (∀ reg < draft.vregs.size, state.registers reg = old reg) ∧
          ∀ (idx : Nat) (copy : VRegInfo × VReg), copies[idx]? = some copy →
            state.registers (draft.vregs.size + idx) = copy.1.width.truncate (old copy.2) := by
  induction copies generalizing draft old with
  | nil => exact .stay fun _ holds => ⟨(), rfl, holds, nofun⟩
  | cons copy rest ih =>
    have added := wf.adds.addResult copy.1 (.move draft.vregs.size copy.2)
    have size_eq := draft.addResult_size copy.1 (.move draft.vregs.size copy.2)
    have below_rest : ∀ other ∈ rest,
        other.2 < (draft.addResult copy.1 (.move draft.vregs.size copy.2)).vregs.size := by
      grind
    have later := ih added.wellFormed below_rest
      (Function.update old draft.vregs.size (copy.1.width.truncate (old copy.2)))
    rw [size_eq] at later
    refine Runs.prepare (runs_copy wf copy.1 (below copy (.head _)) old)
      ((later.behind added).post ?_)
      (added.wellFormed.copyAll rest).1.toLeads
    rintro _ point ⟨alive, here_eq, kept, copied⟩
    refine ⟨alive, here_eq, fun reg inside => ?_, ?_⟩
    · grind
    · intro idx other found
      cases idx with
      | zero =>
        cases found
        rw [add_zero, kept _ (lt_succ_self _), update_self]
      | succ idx =>
        have mem := mem_of_getElem? found
        rw [← add_assoc, add_right_comm, copied idx other found,
          Function.update_of_ne (Nat.ne_of_lt (below other mem))]

/-! ## Places of the convention -/

theorem fillRank_lt (place : Loc) : fillRank place < 4 := by
  unfold fillRank
  split <;> decide

theorem mem_fillOrder {place : α → Loc} {items : List α} {item : α} :
    item ∈ fillOrder place items ↔ item ∈ items := by
  simp only [fillOrder]
  simp [fillRank_lt]

theorem inOrder_map {numbered : List (Nat × α)} {vals : List β} {change : α → β}
    (default : α) (agree : ∀ {idx item}, (idx, item) ∈ numbered → vals[idx]? = some (change item))
    (complete : ∀ idx < vals.length, ∃ item, (idx, item) ∈ numbered) :
    ((Lower.inOrder vals.length numbered).map (·.getD default)).map change = vals := by
  refine ext_getElem? fun idx => ?_
  simp only [Lower.inOrder]
  by_cases inside : idx < vals.length
  · cases found : numbered.lookup idx with
    | none =>
      grind
    | some item =>
      obtain ⟨before, after, numbered_eq, _⟩ := lookup_eq_some_iff.mp found
      grind
  · simp_all

/-- Entries of the values of a return in the order of filling their places. -/
def returnEntries (returns : List ReturnSlot) (values : List TypedReg) :
    List ((ReturnSlot × TypedReg) × Nat) :=
  fillOrder (fun entry => entry.1.1.location) (returns.zip values).zipIdx

def returnCopy (entry : (ReturnSlot × TypedReg) × Nat) : VRegInfo × VReg :=
  ({ name := "ret", width := entry.1.1.width, signed := entry.1.1.type.isSigned,
     fixed := some entry.1.1.location }, entry.1.2.register)

theorem Lower.returnValues_ok {vals : List TypedReg}
    (ran : returnValues vals around draft = .ok ((), after)) :
    let returns := around.signature.returns
    let entries := returnEntries returns vals
    around.signature.noReturn = false ∧ vals.length = returns.length ∧
      (∀ slot value, (slot, value) ∈ returns.zip vals → value.type = slot.type) ∧
      after = (draft.copyAll (entries.map returnCopy)).terminate (.giveBack
        ((inOrder returns.length (entries.mapIdx fun idx entry =>
          (entry.2, draft.vregs.size + idx))).map (·.getD 0))) := by
  unfold returnValues at ran
  rw [read_bind] at ran
  simp only at ran
  obtain ⟨returning, ran⟩ := guard_ok.mp ran
  obtain ⟨arity, ran⟩ := guard_ok.mp ran
  generalize agree : find? _ _ = mismatch at ran
  cases mismatch with
  | some entry => exact absurd ran fail_ne
  | none =>
    obtain ⟨filled, mid, copied, ran⟩ := bind_ok.mp ran
    obtain ⟨rfl, rfl⟩ := copyAll_ok returnCopy
      (by rintro entry draft res after ran; cases ran; exact ⟨rfl, rfl⟩) copied
    refine ⟨Bool.not_eq_true _ ▸ returning, not_not.mp arity, ?_, terminate_ok ran⟩
    intro slot value mem
    obtain ⟨idx, found⟩ := mem_iff_getElem?.mp mem
    have same := find?_eq_none.mp agree ((slot, value), idx)
      (mem_zipIdx_iff_getElem?.mpr found)
    simpa using same

theorem Runs.giveBack {extent : Extent} {start : Draft} {pre : GraphState → Prop}
    {goal : α → GraphPoint → Prop} (wf : start.WellFormed unit) {regs : List VReg}
    {numbers : List Int}
    (content : ∀ {state : GraphState}, pre state → regs.map state.registers = numbers) :
    Runs unit extent start (start.terminate (.giveBack regs)) pre
      (Eval.exit (.giveBack numbers)) goal := by
  intro graph args fuel env state completes alive agrees holds
  refine ⟨0, _, .refl _, (completes.step_giveBack wf alive).trans ?_⟩
  rw [content holds, agrees.memory]
  rfl

section Returns

variable {vals : List TypedReg}

theorem forall₂_getElem? {related : α → β → Prop} {items : List α} {others : List β}
    (all : List.Forall₂ related items others) {idx : Nat} {item : α}
    (found : items[idx]? = some item) :
    ∃ other, others[idx]? = some other ∧ related item other := by
  obtain ⟨inside, rfl⟩ := List.getElem?_eq_some_iff.mp found
  have inside' : idx < others.length := all.length_eq ▸ inside
  exact ⟨_, List.getElem?_eq_getElem inside', all.get inside inside'⟩

theorem mem_returnEntries {entry : (ReturnSlot × TypedReg) × Nat}
    (mem : entry ∈ returnEntries returns vals) :
    returns[entry.2]? = some entry.1.1 ∧ vals[entry.2]? = some entry.1.2 := by
  have found := mem_zipIdx_iff_getElem?.mp (mem_fillOrder.mp mem)
  exact getElem?_zip_eq_some.mp found

theorem exists_returnEntry {idx : Nat} (inside : idx < vals.length)
    (inside' : idx < returns.length) : ∃ entry ∈ returnEntries returns vals, entry.2 = idx := by
  refine ⟨((returns[idx], vals[idx]), idx), ?_, rfl⟩
  refine mem_fillOrder.mpr (mem_zipIdx_iff_getElem?.mpr (getElem?_zip_eq_some.mpr ?_))
  simp

theorem runs_returnValues (belong : around.Belong unit sig) (sized : sig.Sized unit)
    (wf : draft.WellFormed unit) (ran : Lower.returnValues vals around draft = .ok ((), after))
    {due : List String} (numbers : List Int) {goal : α → GraphPoint → Prop} :
    Runs unit ⟨draft, names, 0⟩ draft after (fun state => List.Forall₂ (fun value num =>
        draft.Provides unit due value num state) vals numbers)
      (Eval.exit (.giveBack numbers)) goal := by
  obtain ⟨_, arity, agree, rfl⟩ := returnValues_ok ran
  rw [belong.signature] at arity agree ⊢
  intro graph args fuel env state completes alive agrees provided
  have below : ∀ copy ∈ (returnEntries sig.returns vals).map returnCopy,
      copy.2 < draft.vregs.size := by
    intro copy mem
    obtain ⟨entry, entry_mem, rfl⟩ := mem_map.mp mem
    obtain ⟨_, _, provides⟩ := forall₂_getElem? provided (mem_returnEntries entry_mem).2
    exact provides.lt_size wf
  have copied := (wf.copyAll ((returnEntries sig.returns vals).map returnCopy)).1
  refine (runs_copyAll wf below state.registers).prepare (.giveBack copied.wellFormed ?_)
    (copied.wellFormed.terminate _).toLeads completes alive agrees fun _ _ => rfl
  rintro state' ⟨_, held⟩
  rw [← arity, provided.length_eq]
  refine inOrder_map 0 ?_ ?_
  · intro idx reg mem
    obtain ⟨pos, inside, same⟩ := mem_mapIdx.mp mem
    cases same
    obtain ⟨slot_found, value_found⟩ := mem_returnEntries (getElem_mem inside)
    obtain ⟨num, number_found, provides⟩ := forall₂_getElem? provided value_found
    have type_eq := agree _ _ (mem_of_getElem? (getElem?_zip_eq_some.mpr
      ⟨slot_found, value_found⟩))
    have holds := provides.holds
    rw [CompilationUnit.Holds, CompilationUnit.widthOf, type_eq,
      sized.returns _ (mem_of_getElem? slot_found)] at holds
    have copy_found : ((returnEntries sig.returns vals).map returnCopy)[pos]? =
        some (returnCopy (returnEntries sig.returns vals)[pos]) := by
      grind
    rw [number_found, held pos _ copy_found, returnCopy, provides.content]
    exact congrArg some holds.symm
  · intro idx inside
    have value_inside : idx < vals.length := provided.length_eq ▸ inside
    obtain ⟨entry, entry_mem, rfl⟩ := exists_returnEntry value_inside (arity ▸ value_inside)
    obtain ⟨pos, position_inside, entry_eq⟩ := mem_iff_getElem.mp entry_mem
    refine ⟨draft.vregs.size + pos, mem_mapIdx.mpr ⟨pos, position_inside, ?_⟩⟩
    rw [entry_eq]

theorem returnValues_adds (wf : draft.WellFormed unit)
    (ran : Lower.returnValues vals around draft = .ok ((), after)) :
    draft.Adds after unit ∧ after.typing = draft.typing.killed := by
  obtain ⟨_, _, _, rfl⟩ := returnValues_ok ran
  obtain ⟨copied, typing_eq⟩ :=
    wf.copyAll ((returnEntries around.signature.returns vals).map returnCopy)
  exact ⟨copied.terminate _, by rw [copied.wellFormed.typing_terminate, typing_eq]⟩

end Returns

/-! ## Returns -/

section Operands

theorem returnOperands_computed (sound : ∀ expr ∈ expressions, expr.Sound unit sig)
    (subset : storedIn (nodesOfExprs expressions) ⊆ names) (belong : around.Belong unit sig)
    (wf : draft.WellFormed unit) {found : Option (List TypedReg)}
    (ran : Lower.returnOperands slots (codeOfExprs expressions) around draft = .ok (found, after)) :
    ∃ run, StmtMeaning.values slots (meaningOfExprs unit sig expressions) draft.typing =
        ((found.isSome, run), after.typing) ∧ draft.Adds after unit ∧
      Runs unit ⟨draft, names, 0⟩ draft after (fun _ => True) run fun numbers point =>
        ∃ vals, found = some vals ∧ after.Arrives (fun state =>
          List.Forall₂ (fun value num =>
            after.Provides unit around.pending value num state) vals numbers) point := by
  induction expressions generalizing names draft slots found with
  | nil =>
    cases ran
    have stays : Runs unit ⟨after, names, 0⟩ after after (fun _ => True)
        (pure [] : Eval (List Int)) fun numbers => after.Arrives fun _ => numbers = [] :=
      Runs.stay fun _ _ => ⟨[], rfl, rfl⟩
    refine ⟨pure [], rfl, wf.adds, stays.post ?_⟩
    simp
  | cons expr rest ih =>
    have sound_rest : ∀ other ∈ rest, other.Sound unit sig :=
      fun other mem => sound other (.tail _ mem)
    have first_sound := sound expr (.head _)
    have subset_first : storedIn expr.nodes ⊆ names :=
      List.Subset.trans (storedIn_subset (subset_append_left _ _)) subset
    have subset_rest : storedIn (nodesOfExprs rest) ⊆ names :=
      List.Subset.trans (storedIn_subset (subset_append_right _ _)) subset
    obtain ⟨first, mid, computed, ran⟩ := bind_ok.mp ran
    rw [storedNames_codes] at computed
    obtain ⟨run, typed, adds, runs⟩ := (first_sound.computes.mono subset_first)
      (belong.whilePending _) wf computed
    have wf' := adds.wellFormed
    rw [meaningOfExprs, StmtMeaning.values, Typed.bind_eq typed]
    by_cases diverges : first.type = .never
    · rw [if_pos (TypedReg.diverges_iff.mpr diverges)] at ran
      cases ran
      simp only [diverges]
      exact ⟨_, rfl, adds, (runs.never diverges).bind_never⟩
    · rw [if_neg (mt TypedReg.diverges_iff.mp diverges)] at ran
      obtain ⟨others, _, lowered', same⟩ := bind_ok.mp ran
      cases same
      obtain ⟨run', typed', adds', runs'⟩ := ih sound_rest (.refl _) wf' lowered'
      simp only [diverges, if_false]
      rw [Typed.bind_eq typed', Option.isSome_map]
      refine ⟨_, rfl, adds.trans adds', ?_⟩
      refine runs.andThen (fun num => ?_) adds adds'.toLeads subset_rest
      have framed := runs'.frame
        fun {before later} keeps (provides : mid.Provides unit _ first num before) =>
          provides.of_keeps wf' (subset_append_left _ around.pending) keeps
      refine .map (framed.imp (fun holds => ⟨trivial, holds⟩) ?_)
      rintro numbers point ⟨⟨vals, rfl, alive, here_eq, provided⟩, provides⟩
      refine ⟨first :: vals, rfl, alive, here_eq, .cons ?_ provided⟩
      exact (provides.of_leads wf' adds'.toLeads).of_pending (subset_append_right _ _)

end Operands

theorem executes_giveBack (sized : sig.Sized unit)
    (sound : ∀ expr ∈ expressions, expr.Sound unit sig)
    (subset : storedIn (nodesOfExprs expressions) ⊆ names) :
    Executes unit sig names (Lower.giveBack (codeOfExprs expressions))
      (.giveBack sig.returns (meaningOfExprs unit sig expressions)) := by
  intro around draft after belong wf ran
  unfold Lower.giveBack at ran
  rw [read_bind] at ran
  obtain ⟨found, mid, computed, ran⟩ := bind_ok.mp ran
  rw [belong.signature] at computed
  obtain ⟨run, typed, adds, runs⟩ := returnOperands_computed sound subset belong wf computed
  have wf' := adds.wellFormed
  unfold StmtMeaning.giveBack
  rw [Typed.bind_eq typed]
  cases found with
  | none =>
    cases ran
    refine ⟨_, rfl, adds.toEvolves, congrArg (drop 1) adds.scopes, .bind_never ?_⟩
    refine runs.inStatement.post ?_
    simp
  | some values =>
    obtain ⟨closed, typing_eq⟩ := returnValues_adds wf' ran
    refine ⟨_, Prod.ext rfl typing_eq.symm, (adds.trans closed).toEvolves,
      congrArg (drop 1) (adds.trans closed).scopes, ?_⟩
    have supplied : Runs unit ⟨draft, names, 0⟩ draft mid (fun _ => True) run fun numbers =>
        mid.Arrives fun state => List.Forall₂ (fun value num =>
          mid.Provides unit around.pending value num state) values numbers := by
      simp_all
    exact (supplied.andThen (fun numbers => runs_returnValues belong sized wf' ran numbers)
      adds closed.toLeads (.refl names)).inStatement

end Backend65816
