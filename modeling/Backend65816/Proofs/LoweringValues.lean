import Backend65816.Proofs.LoweringSteps
import Backend65816.Proofs.WidthArithmetic

/-!
# Code of literals and names

A literal becomes a constant of the type that its context gives it. A name is read in place, unless
a later operand stores to it. A truth value in a register decides where the code goes on.
-/

namespace Backend65816

open CompilationUnit Lower List Meaning

variable {after : Draft} {extent : Extent} {due : List String} {meaning : Meaning}
  {around : Surroundings} {res : TypedReg}

variable {unit : CompilationUnit} {sig : Signature} {names : List String} {type : Ty}
  {draft : Draft} {name : String}

variable {width : Width} {typing : Typing}

/-! ## Constants -/

theorem Ty.hasValues_of_isInteger (integer : type.isInteger = true) : type.hasValues = true := by
  cases type with
  | u8 | i8 | u16 | i16 => decide
  | bool | void | named _ | pointer _ | reference _ => cases integer

theorem literalType_hasValues (num : Int) (valued : type.hasValues = true) (want : Ty) :
    (literalType (num, type) want).hasValues = true := by
  unfold literalType
  split
  · grind [Ty.hasValues_of_isInteger]
  · split
    · decide
    · exact valued

namespace Lower

variable {num : Int}

theorem constant_ok (ran : constant num type around draft = .ok (res, after)) :
    ∃ width, around.context.unit.width? type = some width ∧
      res = { register := draft.vregs.size, type } ∧
      after = draft.addResult { width, signed := type.isSigned }
        (.const draft.vregs.size (width.truncate num)) := by
  obtain ⟨width, _, found, ran⟩ := bind_ok.mp ran
  obtain ⟨width_eq, rfl⟩ := widthOf_ok found
  cases ran
  exact ⟨width, width_eq, rfl, rfl⟩

theorem checkLiteral_ok (checked : checkLiteral num type around draft = .ok ((), after)) :
    draft = after ∧ ∀ width, type.isInteger = true → around.context.unit.width? type = some width →
      (integerRange type width).1 ≤ num ∧ num ≤ (integerRange type width).2 := by
  unfold checkLiteral at checked
  by_cases integer : type.isInteger = true
  · rw [if_pos integer, theUnit_bind] at checked
    cases width_eq : around.context.unit.width? type with
    | none =>
      rw [width_eq] at checked
      cases checked
      exact ⟨rfl, nofun⟩
    | some width =>
      simp only [width_eq] at checked
      split at checked
      · exact absurd checked fail_ne
      · next inside =>
        cases checked
        simp_all
  · rw [if_neg integer] at checked
    cases checked
    simp_all

end Lower

theorem CompilationUnit.widthOf_eq (width_eq : unit.width? type = some width) :
    unit.widthOf type = width := by
  rw [widthOf, width_eq, Option.getD_some]

theorem CompilationUnit.fit_eq (width_eq : unit.width? type = some width) (num : Int) :
    unit.fit type num = width.truncate num := by
  rw [fit, widthOf_eq width_eq]

theorem runs_constant (wf : draft.WellFormed unit) (valued : type.hasValues = true)
    (width_eq : unit.width? type = some width) (num : Int) (pre : GraphState → Prop)
    (due : List String) :
    Runs unit ⟨draft, names, 0⟩ draft (draft.addResult { width, signed := type.isSigned }
        (.const draft.vregs.size (width.truncate num))) pre (pure (unit.fit type num))
      ((draft.addResult { width, signed := type.isSigned }
        (.const draft.vregs.size (width.truncate num))).Supplies unit due
          { register := draft.vregs.size, type }) := by
  refine .provide wf valued width_eq (fun _ => width.truncate num)
    (fun width_eq => ?_) (fun _ => ?_)
  all_goals simp_all [Graph.act, fit_eq]

theorem computes_int (valued : type.hasValues = true) (num : Int) :
    Computes unit sig names (ExprCode.int num type).value (.literal unit num type) := by
  intro want around draft after res belong wf ran
  obtain ⟨_, _, checked, ran⟩ := bind_ok.mp ran
  obtain ⟨rfl, _⟩ := checkLiteral_ok checked
  obtain ⟨width, width_eq, rfl, rfl⟩ := constant_ok ran
  rw [belong.unit] at width_eq
  have valued' := literalType_hasValues num valued want
  refine ⟨_, ?_, wf.adds.addResult _ _, runs_constant wf valued' width_eq num _ _⟩
  rw [wf.typing_addResult]
  rfl

theorem computes_bool (truth : Bool) : Computes unit sig names (ExprCode.bool truth).value
      fun _ => return (.bool, pure truth.toInt) := by
  intro want around draft after res belong wf ran
  obtain ⟨width, width_eq, rfl, rfl⟩ := constant_ok ran
  rw [belong.unit] at width_eq
  have fits : unit.fit .bool truth.toInt = truth.toInt := Width.holds_toInt _ truth
  refine ⟨_, ?_, wf.adds.addResult _ _, runs_constant wf rfl width_eq truth.toInt _ _⟩
  rw [wf.typing_addResult, fits]
  rfl

/-! ## Names -/

namespace Draft.WellFormed

variable {value : TypedReg} {rule : RegisterRule}

theorem exists_entry (found : draft.find? name = some value) :
    ∃ scope ∈ draft.scopes, (name, value) ∈ scope := by
  obtain ⟨scope, scope_mem, found⟩ := exists_of_findSome?_eq_some found
  obtain ⟨⟨own, content⟩, entry_found, rfl⟩ := Option.map_eq_some_iff.mp found
  grind

variable (wf : draft.WellFormed rule)
include wf

theorem typed_of_find? (found : draft.find? name = some value) : draft.Typed rule value := by
  obtain ⟨scope, scope_mem, entry_mem⟩ := exists_entry found
  exact wf.locals scope_mem entry_mem

theorem not_mutable_of_mem {scope : Named TypedReg} (scope_mem : scope ∈ draft.scopes)
    {entry : String × TypedReg} (entry_mem : entry ∈ scope) (kept : entry.1 ∉ due) :
    ¬draft.Mutable due entry.2.register := by
  have distinct := wf.distinct
  rw [owned, nodup_append] at distinct
  obtain ⟨distinct, _, apart⟩ := distinct
  have mem : entry ∈ draft.scopes.flatten := mem_flatten.mpr ⟨scope, scope_mem, entry_mem⟩
  rintro (⟨loop, loop_mem, known⟩ | ⟨scope', scope_mem', other, other_mem, stored, same⟩)
  · exact apart _ (mem_map_of_mem mem) _ (mem_filterMap.mpr ⟨loop, loop_mem, known⟩) rfl
  · have mem' : other ∈ draft.scopes.flatten := mem_flatten.mpr ⟨scope', scope_mem', other_mem⟩
    have entry_eq := inj_on_of_nodup_map distinct mem' mem same
    grind

theorem not_mutable_of_find? (found : draft.find? name = some value) {due : List String}
    (kept : name ∉ due) : ¬draft.Mutable due value.register := by
  obtain ⟨scope, scope_mem, entry_mem⟩ := exists_entry found
  exact wf.not_mutable_of_mem scope_mem entry_mem kept

end Draft.WellFormed

theorem Lower.findName_ok {place : NamedPlace}
    (ran : findName name around draft = .ok (place, after)) :
    draft = after ∧ ((∃ value, draft.find? name = some value ∧ place = .inReg value) ∨
      draft.find? name = none ∧ ∃ global, around.context.unit.findGlobal? name = some global ∧
        place = .inMemory global) := by
  unfold findName at ran
  rw [get_bind] at ran
  cases found : draft.find? name with
  | some value =>
    rw [found] at ran
    cases ran
    exact ⟨rfl, .inl ⟨value, rfl, rfl⟩⟩
  | none =>
    rw [found] at ran
    simp only [theUnit_bind] at ran
    cases global_eq : around.context.unit.findGlobal? name with
    | some global =>
      rw [global_eq] at ran
      cases ran
      simp
    | none =>
      simp_all [fail_ne]

theorem Width.truncate_of_holds {num : Int} (width_eq : unit.width? type = some width)
    (holds : unit.Holds type num) : width.truncate num = num := by
  rw [CompilationUnit.Holds, CompilationUnit.widthOf, width_eq] at holds
  exact holds

theorem runs_lookUp {value : TypedReg} (found : draft.find? name = some value)
    (pre : GraphState → Prop) :
    Runs unit extent draft draft pre (Eval.lookUp name) fun num => draft.Arrives fun state =>
      state.registers value.register = num ∧ unit.Holds value.type num := by
  refine .stay fun {fuel env state} agrees _ => ?_
  obtain ⟨lookUp_eq, holds⟩ := agrees.find? found
  simp_all [Eval.lookUp]

theorem runs_load (addr : Address) (pre : GraphState → Prop) :
    Runs unit extent draft draft pre (Eval.load addr) fun num =>
      draft.Arrives fun state => state.memory addr = num :=
  Runs.stay fun agrees _ => ⟨_, rfl, congrFun agrees.memory addr⟩

/-- Every type of some width is one of values: no enum is named like a type without values. -/
def CompilationUnit.HasValues (unit : CompilationUnit) : Prop :=
  ∀ ⦃type : Ty⦄ ⦃width : Width⦄, unit.width? type = some width → type.hasValues = true

theorem Meaning.name_of_local (found : typing.find? name = some type) (bank : Int) (want : Ty) :
    Meaning.name unit bank name want typing = ((type, Eval.lookUp name), typing) := by
  unfold Meaning.name
  rw [Typed.get_bind, found]
  rfl

theorem computes_name (valued : unit.HasValues) :
    Computes unit sig names (ExprCode.name name).value (.name unit sig.bank name) := by
  intro want around draft after res belong wf ran
  have typing_eq := draft.typing_find? name
  obtain ⟨place, _, named, ran⟩ := bind_ok.mp ran
  obtain ⟨rfl, ⟨value, found, rfl⟩ | ⟨missing, global, global_eq, rfl⟩⟩ := findName_ok named
  · rw [found] at typing_eq
    simp only [read_bind] at ran
    split at ran
    · obtain ⟨_, info, info_eq, valued, width_eq, _⟩ := wf.typed_of_find? found
      rw [regInfo_bind, Draft.info_of_getElem? info_eq] at ran
      cases ran
      refine ⟨.lookUp name, (name_of_local typing_eq _ _).trans
        (congrArg _ (wf.typing_addResult _ _).symm), wf.adds.addResult _ _, ?_⟩
      rw [← Eval.bind_pure (Eval.lookUp name)]
      refine (runs_lookUp found _).bind (fun num => ?_) (wf.addResult _ _).toLeads
      refine .provide wf valued width_eq (fun state => state.registers value.register)
        (fun width_eq => ?_) (fun holds => ?_)
      all_goals grind [Graph.act, Width.truncate_of_holds]
    · next kept =>
      cases ran
      have typed := wf.typed_of_find? found
      refine ⟨_, name_of_local typing_eq _ _, wf.adds, (runs_lookUp found _).post ?_⟩
      rintro num point ⟨alive, here_eq, content, holds⟩
      exact ⟨alive, here_eq, (Ty.hasValues_iff.mp typed.hasValues).2, content, holds, .inl typed,
        wf.not_mutable_of_find? found kept⟩
  · obtain ⟨reg, _, made, ran⟩ := bind_ok.mp ran
    obtain ⟨width, _, sized, made⟩ := bind_ok.mp made
    obtain ⟨width_eq, rfl⟩ := widthOf_ok sized
    cases made
    cases ran
    rw [belong.unit] at global_eq width_eq
    rw [belong.signature]
    rw [missing] at typing_eq
    unfold Meaning.name
    rw [Typed.get_bind, typing_eq, global_eq]
    refine ⟨_, Prod.ext rfl (wf.typing_addResult _ _).symm, wf.adds.addResult _ _, ?_⟩
    refine (runs_load _ _).bind (fun num => ?_) (wf.addResult _ _).toLeads
    refine .provide wf (valued width_eq) width_eq
      (fun state => state.memory (global.addressFrom sig.bank))
      (fun width_eq => ?_) (fun holds => ?_)
    all_goals simp_all [Graph.act, fit_eq, GlobalDecl.addressFrom]

/-! ## Truth values -/

theorem Meaning.test_eq {after : Typing} {run : Eval Int}
    (found : meaning .bool typing = ((type, run), after)) :
    meaning.test typing = (run, after.revived) := by
  unfold Meaning.test
  rw [Typed.bind_eq found]
  rfl

theorem branches_bool (truth : Bool) : Branches unit sig names (ExprCode.bool truth).branch
      fun _ => return (.bool, pure truth.toInt) := by
  intro yes no around draft after belong wf ran
  cases ran
  refine ⟨pure truth.toInt, ?_, wf.adds.terminate _, ?_⟩
  · rw [wf.typing_terminate]
    change _ = (_, draft.typing.revived)
    exact test_eq rfl
  · refine (Runs.jump wf truth.toInt _).post ?_
    grind

theorem branches_of_computes {value : Ty → Lower TypedReg}
    (computes : Computes unit sig names value meaning) :
    Branches unit sig names (Lower.branchOnValue value) meaning := by
  intro yes no around draft after belong wf ran
  obtain ⟨cond, mid, computed, ran⟩ := bind_ok.mp ran
  obtain ⟨run, typed, adds, runs⟩ := computes belong wf computed
  refine ⟨run, ?_⟩
  split at ran
  · next diverges =>
    cases ran
    refine ⟨test_eq typed, adds, runs.post ?_⟩
    rintro num point ⟨_, _, provides⟩
    exact absurd (TypedReg.diverges_iff.mp diverges) provides.completes
  · obtain ⟨-, ran⟩ := guard_ok.mp ran
    unfold branchOn comparable at ran
    simp only [bind_assoc, regInfo_bind, Cond.isEquality, Bool.not_true, Bool.and_false] at ran
    cases ran
    have wf' := adds.wellFormed
    refine ⟨?_, adds.terminate _, ?_⟩
    · rw [test_eq typed, wf'.typing_terminate]
      rfl
    · rw [← Eval.bind_pure run]
      refine runs.bind (fun num => ?_) (wf'.terminate _).toLeads
      refine .branch wf' yes no fun {state} provides => ?_
      rw [provides.content]
      exact decide_eq_true_iff

end Backend65816
