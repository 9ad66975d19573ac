import Mathlib.Data.List.Pairwise
import Backend65816.Proofs.LoweringTrees

/-!
# Code at the entry of functions

Every parameter has a register fixed to the place that the caller filled. One in a hardware register
is copied to a register of its own; one in memory is used in place. After the entry the names of the
parameters hold the arguments, cut to their widths.
-/

namespace Backend65816

open Draft List Nat Option GraphState ParamEntry

variable {after : Draft} {graph : Graph} {entries : List ParamEntry} {entry : ParamEntry}
  {around : Surroundings}

variable {unit : CompilationUnit} {sig : Signature}

/-! ## Binding parameters -/

namespace ParamSlot

/-- The place in which the function finds the parameter. -/
def entryPlace (param : ParamSlot) : Loc :=
  match param.place with
  | .stack offset => .argument offset
  | .bound location => location

def fixedInfo (param : ParamSlot) : VRegInfo where
  name := param.name
  width := param.width
  signed := param.type.isSigned
  fixed := some param.entryPlace

/-- The register to which the parameter is copied, if its place is a hardware register. -/
def copyInfo? (param : ParamSlot) : Option VRegInfo :=
  match param.entryPlace with
  | .reg hint =>
    some { name := param.name, width := param.width, signed := param.type.isSigned
           hint := some hint }
  | _ => none

def ownInfo (param : ParamSlot) : VRegInfo := param.copyInfo?.getD param.fixedInfo

theorem ownInfo_width (param : ParamSlot) : param.ownInfo.width = param.width := by
  unfold ownInfo copyInfo?
  split <;> rfl

theorem ownInfo_signed (param : ParamSlot) : param.ownInfo.signed = param.type.isSigned := by
  unfold ownInfo copyInfo?
  split <;> rfl

end ParamSlot

def ParamEntry.own (entry : ParamEntry) : VReg := entry.copy.getD entry.fixed

def ParamEntry.registers (entry : ParamEntry) : List VReg := entry.fixed :: entry.copy.toList

namespace Draft

/-- The draft with the registers of a parameter, before it has a name. -/
def addParam (draft : Draft) (param : ParamSlot) : Draft :=
  match param.copyInfo? with
  | some info => (draft.addReg param.fixedInfo).addReg info
  | none => draft.addReg param.fixedInfo

def paramEntry (draft : Draft) (param : ParamSlot) : ParamEntry where
  fixed := draft.vregs.size
  copy := param.copyInfo?.map fun _ => draft.vregs.size + 1
  place := param.entryPlace

def bindParam (draft : Draft) (param : ParamSlot) : Draft :=
  (draft.addParam param).declare param.name
    { register := (draft.paramEntry param).own, type := param.type }

def bindParams (draft : Draft) : List ParamSlot → Draft × List ParamEntry
  | [] => (draft, [])
  | param :: rest =>
    let bound := (draft.bindParam param).bindParams rest
    (bound.1, draft.paramEntry param :: bound.2)

@[simp]
theorem addReg_size (draft : Draft) (info : VRegInfo) :
    (draft.addReg info).vregs.size = draft.vregs.size + 1 := Array.size_push ..

theorem setHint_addReg (draft : Draft) (info : VRegInfo) (hint : Reg) :
    (draft.addReg info).setHint draft.vregs.size hint =
      draft.addReg { info with hint := some hint } := by
  have vregs_eq : (draft.vregs.push info).modify draft.vregs.size
      (fun info => { info with hint := some hint }) =
      draft.vregs.push { info with hint := some hint } := by
    grind
  simp only [setHint, addReg, vregs_eq]

end Draft

theorem Lower.enterParam_run (around : Surroundings) (draft : Draft) (param : ParamSlot) :
    enterParam param around draft = .ok (draft.paramEntry param, draft.bindParam param) := by
  obtain ⟨name, type, width, place⟩ := param
  unfold enterParam newFixedReg
  cases place with
  | stack offset => rfl
  | bound loc =>
    cases loc with
    | reg hint =>
      simp only
      rw [newRegWith_bind, newReg_bind, modify_bind, setHint_addReg, addReg_size]
      rfl
    | _ => rfl

namespace Draft

/-- The draft with code that moves registers in order. -/
def moveAll (draft : Draft) (moves : List (VReg × VReg)) : Draft :=
  moves.foldl (fun draft move => draft.emit (.move move.1 move.2)) draft

def takeArguments (draft : Draft) (entries : List ParamEntry) : Draft :=
  if entries.isEmpty then draft else draft.emit (.params (entries.map fixed))

/-- Copies of parameters in the order in which their places are emptied. -/
def paramMoves (entries : List ParamEntry) : List (VReg × VReg) :=
  (fillOrder place entries).reverse.filterMap fun entry =>
    entry.copy.map fun copy => (copy, entry.fixed)

end Draft

namespace Lower

variable {draft : Draft}

theorem bindParams_ok {params : List ParamSlot}
    (ran : params.mapM enterParam around draft = .ok (entries, after)) :
    (after, entries) = draft.bindParams params := by
  induction params generalizing draft entries with
  | nil =>
    cases ran
    rfl
  | cons param rest ih =>
    rw [mapM_cons] at ran
    obtain ⟨entry, mid, bound, ran⟩ := bind_ok.mp ran
    obtain ⟨others, _, lowered', same⟩ := bind_ok.mp ran
    cases same
    cases (enterParam_run around draft param).symm.trans bound
    grind [bindParams]

theorem moveAll_ok (ran : (entries.forM fun entry => match entry.copy with
      | some copy => emit (.move copy entry.fixed)
      | none => pure () : Lower Unit) around draft = .ok ((), after)) :
    after = draft.moveAll (entries.filterMap fun entry =>
      entry.copy.map fun copy => (copy, entry.fixed)) := by
  induction entries generalizing draft with
  | nil =>
    cases ran
    rfl
  | cons entry rest ih =>
    rw [List.forM] at ran
    obtain ⟨_, mid, moved, ran⟩ := bind_ok.mp ran
    cases copied : entry.copy with
    | none =>
      rw [copied] at moved
      cases moved
      grind
    | some copy =>
      rw [copied] at moved
      cases moved
      rw [filterMap_cons_some (by rw [copied]; rfl)]
      exact ih ran

theorem enterParams_ok (ran : enterParams around draft = .ok ((), after)) :
    after = ((draft.bindParams around.signature.params).1.takeArguments
      (draft.bindParams around.signature.params).2).moveAll
        (paramMoves (draft.bindParams around.signature.params).2) := by
  unfold enterParams at ran
  rw [read_bind] at ran
  obtain ⟨entries, mid, bound, ran⟩ := bind_ok.mp ran
  have bound_eq := bindParams_ok bound
  rw [← bound_eq, takeArguments]
  cases empty : entries.isEmpty with
  | true =>
    rw [empty] at ran
    exact moveAll_ok ran
  | false =>
    rw [empty] at ran
    exact moveAll_ok ran

end Lower

/-! ## Drafts with parameters -/

namespace Draft

section Bound

variable {rule : RegisterRule} {draft : Draft} {param : ParamSlot} {params : List ParamSlot}

theorem wellFormed_empty (rule : RegisterRule) : ({} : Draft).WellFormed rule where
  current := one_pos
  noRegister := rfl
  locals := by
    simp
  results := nofun
  exits_lt := nofun
  exits := nodup_nil
  distinct := nodup_nil

theorem addParam_eq (draft : Draft) (param : ParamSlot) :
    draft.addParam param = { draft with vregs := (draft.addParam param).vregs } := by
  unfold addParam
  split <;> rfl

theorem bindParam_eq (draft : Draft) (param : ParamSlot) : draft.bindParam param = { draft with
      vregs := (draft.addParam param).vregs
      scopes := (draft.bindParam param).scopes } := by
  unfold bindParam
  rw [declare_eq, addParam_eq]

theorem WellFormed.addParam (wf : draft.WellFormed rule) (param : ParamSlot) :
    draft.Evolves (draft.addParam param) rule := by
  have fixed := wf.addReg param.fixedInfo
  unfold Draft.addParam
  split
  · exact fixed.trans (fixed.wellFormed.addReg _)
  · exact fixed

theorem own_eq (draft : Draft) :
    (draft.addParam param).vregs[(draft.paramEntry param).own]? = some param.ownInfo ∧
      draft.vregs.size ≤ (draft.paramEntry param).own := by
  unfold addParam paramEntry own ParamSlot.ownInfo
  cases param.copyInfo? with
  | none => exact ⟨Array.getElem?_push_size, le_refl _⟩
  | some info =>
    refine ⟨?_, le_succ _⟩
    simp only [← draft.addReg_size param.fixedInfo]
    exact Array.getElem?_push_size

theorem WellFormed.bindParam (wf : draft.WellFormed rule)
    (fits : rule.fits param.type param.ownInfo) : draft.Evolves (draft.bindParam param) rule := by
  obtain ⟨known, new⟩ := draft.own_eq
  have nonzero : (draft.paramEntry param).own ≠ 0 :=
    ne_of_gt (lt_of_lt_of_le wf.vregs_pos new)
  refine (wf.addParam param).declare ⟨nonzero, _, known, fits⟩ new fun owned => ?_
  have owned : (draft.paramEntry param).own ∈ draft.owned := by
    rw [addParam_eq] at owned
    exact owned
  exact Nat.not_lt_of_le new (wf.owned_typed owned).2

theorem bindParams_eq (draft : Draft) (params : List ParamSlot) :
    (draft.bindParams params).1 = { draft with
      vregs := (draft.bindParams params).1.vregs
      scopes := (draft.bindParams params).1.scopes } := by
  induction params generalizing draft with
  | nil => rfl
  | cons param rest ih =>
    rw [bindParams, ih, bindParam_eq]

/-- The registers of an entry are those of a parameter. -/
structure Enters (draft : Draft) (param : ParamSlot) (entry : ParamEntry) : Prop where
  fixed : draft.vregs[entry.fixed]? = some param.fixedInfo
  own : draft.vregs[entry.own]? = some param.ownInfo
  copied : entry.copy.isSome = param.copyInfo?.isSome

theorem enters_paramEntry (draft : Draft) (param : ParamSlot) :
    (draft.addParam param).Enters param (draft.paramEntry param) where
  fixed := by
    unfold addParam
    split
    · exact getElem?_push_of_some _ Array.getElem?_push_size
    · exact Array.getElem?_push_size
  own := draft.own_eq.1
  copied := isSome_map

theorem registers_paramEntry (draft : Draft) (param : ParamSlot) :
    (draft.paramEntry param).registers.Nodup ∧ ∀ reg ∈ (draft.paramEntry param).registers,
      draft.vregs.size ≤ reg ∧ reg < (draft.addParam param).vregs.size := by
  unfold ParamEntry.registers paramEntry addParam
  cases param.copyInfo? with
  | none =>
    simp
  | some info =>
    simp only [addReg_size]
    grind

theorem bindParam_vregs (draft : Draft) (param : ParamSlot) :
    (draft.bindParam param).vregs = (draft.addParam param).vregs := by
  rw [bindParam_eq]

section

variable (wf : draft.WellFormed rule) (fits : ∀ param ∈ params, rule.fits param.type param.ownInfo)
include wf fits

theorem WellFormed.bindParams : draft.Evolves (draft.bindParams params).1 rule := by
  induction params generalizing draft with
  | nil => exact wf.evolves
  | cons param rest ih =>
    have bound := wf.bindParam (fits param (.head _))
    exact bound.trans (ih bound.wellFormed fun other mem => fits other (.tail _ mem))

theorem WellFormed.enters_bindParams :
    List.Forall₂ (draft.bindParams params).1.Enters params (draft.bindParams params).2 := by
  induction params generalizing draft with
  | nil => exact .nil
  | cons param rest ih =>
    have bound := wf.bindParam (fits param (.head _))
    have fits_rest : ∀ other ∈ rest, rule.fits other.type other.ownInfo :=
      fun other mem => fits other (.tail _ mem)
    have later := (bound.wellFormed.bindParams fits_rest).covered
    have enters := draft.enters_paramEntry param
    refine .cons ⟨later.vregs ?_, later.vregs ?_, enters.copied⟩ (ih bound.wellFormed fits_rest)
    · rw [bindParam_vregs]
      exact enters.fixed
    · rw [bindParam_vregs]
      exact enters.own

end

variable (draft)

variable (params)

theorem registers_bindParams : ((draft.bindParams params).2.flatMap registers).Nodup ∧
      ∀ reg ∈ (draft.bindParams params).2.flatMap registers, draft.vregs.size ≤ reg := by
  induction params generalizing draft with
  | nil => exact ⟨nodup_nil, nofun⟩
  | cons param rest ih =>
    obtain ⟨distinct, inside⟩ := draft.registers_paramEntry param
    obtain ⟨distinct_rest, new⟩ := ih (draft.bindParam param)
    rw [bindParam_vregs] at new
    refine ⟨nodup_append.mpr ⟨distinct, distinct_rest, ?_⟩, ?_⟩
    · grind
    · intro reg mem
      rcases mem_append.mp mem with mem | mem
      · exact (inside reg mem).1
      · have grown : draft.vregs.size < (draft.addParam param).vregs.size :=
          (inside _ (.head _)).2
        grind

theorem typing_bindParam (param : ParamSlot) :
    (draft.bindParam param).typing = draft.typing.declare param.name param.type := by
  unfold bindParam
  rw [typing_declare, addParam_eq]
  rfl

theorem typing_bindParams : (draft.bindParams params).1.typing = params.foldl
      (fun typing param => typing.declare param.name param.type) draft.typing := by
  induction params generalizing draft with
  | nil => rfl
  | cons param rest ih =>
    rw [bindParams, ih, typing_bindParam]
    rfl

end Bound

end Draft

/-! ## Running the entry -/

theorem foldl_write (width : VReg → Width) (args : Nat → Int) {targets : List VReg}
    (distinct : targets.Nodup) (first : Nat) (state : GraphState) :
    let after := (targets.zipIdx first).foldl
      (fun state (target, idx) => state.write (width target) target (args idx)) state
    after.memory = state.memory ∧ (∀ reg ∉ targets, after.registers reg = state.registers reg) ∧
      ∀ (idx : Nat) (target : VReg), targets[idx]? = some target →
        after.registers target = (width target).truncate (args (first + idx)) := by
  induction targets generalizing first state with
  | nil => exact ⟨rfl, fun _ _ => rfl, nofun⟩
  | cons target rest ih =>
    obtain ⟨other, distinct⟩ := nodup_cons.mp distinct
    obtain ⟨mem, kept, given⟩ := ih distinct (first + 1)
      (state.write (width target) target (args first))
    refine ⟨mem, fun reg missing => ?_, fun idx found at_index => ?_⟩
    · simp_all [write_of_ne]
    · cases idx with
      | zero =>
        cases at_index
        exact (kept target other).trans (write_self ..)
      | succ idx =>
        grind

namespace Draft

variable {rule : RegisterRule} {draft : Draft} {moves : List (VReg × VReg)}

theorem WellFormed.moveAll (wf : draft.WellFormed rule) (moves : List (VReg × VReg)) :
    draft.Adds (draft.moveAll moves) rule ∧ (draft.moveAll moves).typing = draft.typing := by
  induction moves generalizing draft with
  | nil => exact ⟨wf.adds, rfl⟩
  | cons move rest ih =>
    have emitted := wf.adds.emit (.move move.1 move.2)
    obtain ⟨moved, typing_eq⟩ := ih emitted.wellFormed
    exact ⟨emitted.trans moved, typing_eq.trans wf.typing_emit⟩

theorem reaches_moveAll (args : Nat → Int) (wf : draft.WellFormed rule)
    (alive : draft.isDead = false) (completes : graph.Completes (draft.moveAll moves))
    (same : ∀ move ∈ moves, ∀ other ∈ moves, move.1 = other.1 → move.2 = other.2)
    (apart : ∀ move ∈ moves, ∀ other ∈ moves, move.1 ≠ other.2) (state : GraphState) :
    ∃ steps after, graph.ReachesIn args steps (draft.here state)
        ((draft.moveAll moves).here after) ∧ after.memory = state.memory ∧
      (∀ reg ∉ moves.map Prod.fst, after.registers reg = state.registers reg) ∧
      ∀ move ∈ moves, after.registers move.1 =
        (graph.width move.1).truncate (state.registers move.2) := by
  induction moves generalizing draft state with
  | nil => exact ⟨0, state, .refl _, rfl, fun _ _ => rfl, nofun⟩
  | cons move rest ih =>
    have emitted := wf.adds.emit (.move move.1 move.2)
    have later := (emitted.wellFormed.moveAll rest).1
    have acts : graph.act args state (.move move.1 move.2) =
        some (state.write (graph.width move.1) move.1 (state.registers move.2)) := rfl
    have next := (later.toLeads.completes completes).step_emit wf alive acts
    obtain ⟨steps, after, reaches, memory, kept, moved⟩ := ih emitted.wellFormed
      (wf.isDead_emit.trans alive) completes
      (fun first mem other other_mem =>
        same first (.tail _ mem) other (.tail _ other_mem))
      (fun first mem other other_mem =>
        apart first (.tail _ mem) other (.tail _ other_mem))
      (state.write (graph.width move.1) move.1 (state.registers move.2))
    have sources : ∀ other ∈ rest,
        (state.write (graph.width move.1) move.1 (state.registers move.2)).registers other.2 =
          state.registers other.2 := fun other mem => write_of_ne _
      (apart move (.head _) other (.tail _ mem)).symm
    refine ⟨steps + 1, after, .head next reaches, memory, fun reg missing => ?_, ?_⟩
    · rw [map_cons, mem_cons, not_or] at missing
      exact (kept reg missing.2).trans (write_of_ne _ missing.1)
    · refine forall_mem_cons.mpr ⟨?_, fun other mem => ?_⟩
      · grind [write_self]
      · rw [moved other mem, sources other mem]

end Draft

section Entry

variable {draft : Draft} {params : List ParamSlot}

theorem entry_eq_of_register (distinct : (entries.flatMap registers).Nodup)
    {other : ParamEntry} (mem : entry ∈ entries) (other_mem : other ∈ entries) {reg : VReg}
    (has : reg ∈ entry.registers) (other_has : reg ∈ other.registers) : entry = other := by
  by_contra different
  have apart := (nodup_flatMap.mp distinct).2
  have : Std.Symm (Function.onFun List.Disjoint registers) :=
    ⟨fun _ _ disjoint _ has other_has => disjoint other_has has⟩
  have disjoint := apart.forall mem other_mem different
  exact disjoint has other_has

theorem mem_paramMoves {move : VReg × VReg} : move ∈ paramMoves entries ↔
      ∃ entry ∈ entries, entry.copy = some move.1 ∧ entry.fixed = move.2 := by
  simp only [paramMoves, mem_filterMap, mem_reverse, mem_fillOrder, map_eq_some_iff]
  grind

theorem copy_mem {copy : VReg} (copied : entry.copy = some copy) : copy ∈ entry.registers := by
  rw [ParamEntry.registers, copied]
  simp

theorem paramMoves_apart (distinct : (entries.flatMap ParamEntry.registers).Nodup) :
    ∀ move ∈ paramMoves entries, ∀ entry ∈ entries, move.1 ≠ entry.fixed := by
  intro move mem other other_mem target_eq
  obtain ⟨entry, entry_mem, copied, _⟩ := mem_paramMoves.mp mem
  obtain rfl := entry_eq_of_register distinct entry_mem other_mem (copy_mem copied)
    (target_eq ▸ .head _)
  grind [ParamEntry.registers]

theorem fixed_sublist : (entries.map fixed).Sublist (entries.flatMap registers) := by
  induction entries with
  | nil => exact .slnil
  | cons entry rest ih => exact .cons_cons _ (ih.trans (sublist_append_right _ _))

/-- What the registers hold once the arguments are taken. -/
def GraphState.taking (state : GraphState) (graph : Graph) (arguments : Nat → Int)
    (entries : List ParamEntry) : GraphState :=
  (entries.map fixed).zipIdx.foldl
    (fun state (target, index) => state.write (graph.width target) target (arguments index)) state

variable (args : Nat → Int)

theorem Draft.WellFormed.takeArguments {rule : RegisterRule} (wf : draft.WellFormed rule)
    (entries : List ParamEntry) : draft.Adds (draft.takeArguments entries) rule ∧
      (draft.takeArguments entries).typing = draft.typing := by
  unfold Draft.takeArguments
  split
  · exact ⟨wf.adds, rfl⟩
  · exact ⟨wf.adds.emit _, wf.typing_emit⟩

theorem reaches_entry (wf : draft.WellFormed unit) (alive : draft.isDead = false)
    (enters : List.Forall₂ draft.Enters params entries)
    (distinct : (entries.flatMap registers).Nodup)
    (completes : graph.Completes ((draft.takeArguments entries).moveAll (paramMoves entries)))
    (state : GraphState) : ∃ steps after, graph.ReachesIn args steps (draft.here state)
        (((draft.takeArguments entries).moveAll (paramMoves entries)).here after) ∧
      after.memory = state.memory ∧
      (∀ reg ∉ entries.flatMap registers, after.registers reg = state.registers reg) ∧
      ∀ (idx : Nat) (param : ParamSlot) (entry : ParamEntry), params[idx]? = some param →
        entries[idx]? = some entry →
        after.registers entry.own = param.width.truncate (args idx) := by
  obtain ⟨taken, taken_typing⟩ := wf.takeArguments entries
  have taken_dead : (draft.takeArguments entries).isDead = draft.isDead :=
    congrArg Typing.dead taken_typing
  have moved := (taken.wellFormed.moveAll (paramMoves entries)).1
  have completes' := moved.toLeads.completes completes
  obtain ⟨steps, reaches⟩ : ∃ steps, graph.ReachesIn args steps (draft.here state)
      ((draft.takeArguments entries).here (state.taking graph args entries)) := by
    cases entries with
    | nil => exact ⟨0, .refl _⟩
    | cons entry rest => exact ⟨1, .single (completes'.step_emit wf alive rfl)⟩
  obtain ⟨memory, kept, given⟩ := foldl_write graph.width args
    (distinct.sublist fixed_sublist) 0 state
  have same : ∀ move ∈ paramMoves entries, ∀ other ∈ paramMoves entries,
      move.1 = other.1 → move.2 = other.2 := by
    intro move mem other other_mem target_eq
    obtain ⟨entry, entry_mem, copied, fixed_eq⟩ := mem_paramMoves.mp mem
    obtain ⟨entry', entry_mem', copied', fixed_eq'⟩ := mem_paramMoves.mp other_mem
    rw [← target_eq] at copied'
    rw [← fixed_eq, ← fixed_eq', entry_eq_of_register distinct entry_mem entry_mem'
      (copy_mem copied) (copy_mem copied')]
  have apart : ∀ move ∈ paramMoves entries, ∀ other ∈ paramMoves entries,
      move.1 ≠ other.2 := by
    intro move mem other other_mem
    obtain ⟨entry, entry_mem, _, fixed_eq⟩ := mem_paramMoves.mp other_mem
    grind [paramMoves_apart]
  obtain ⟨steps', after, reaches', memory', kept', copied'⟩ := reaches_moveAll
    args taken.wellFormed (taken_dead.trans alive) completes same apart
    (state.taking graph args entries)
  refine ⟨steps + steps', after, reaches.trans reaches', memory'.trans memory, ?_, ?_⟩
  · intro reg missing
    have not_fixed : reg ∉ entries.map fixed :=
      fun mem => missing (fixed_sublist.subset mem)
    refine (kept' reg fun mem => missing ?_).trans (kept reg not_fixed)
    obtain ⟨move, move_mem, rfl⟩ := mem_map.mp mem
    obtain ⟨entry, entry_mem, copied, _⟩ := mem_paramMoves.mp move_mem
    grind [copy_mem]
  · intro idx param entry param_at entry_at
    obtain ⟨entry', entry_at', known⟩ := forall₂_getElem? enters param_at
    obtain rfl : entry = entry' := Option.some.inj (entry_at.symm.trans entry_at')
    have entry_mem := mem_of_getElem? entry_at
    have fixed_at : (entries.map fixed)[idx]? = some entry.fixed := by
      grind
    have fixed_content := given idx entry.fixed fixed_at
    have covers := taken.toLeads.completes completes'
    rw [covers.width_eq known.fixed, zero_add] at fixed_content
    have own_width := covers.width_eq known.own
    rw [param.ownInfo_width] at own_width
    cases copied : entry.copy with
    | none =>
      have own_eq : entry.own = entry.fixed := by rw [own, copied, getD_none]
      rw [own_eq, kept' entry.fixed ?_]
      · exact fixed_content
      · intro mem
        obtain ⟨move, move_mem, target_eq⟩ := mem_map.mp mem
        grind [paramMoves_apart]
    | some copy =>
      have own_eq : entry.own = copy := by rw [own, copied, getD_some]
      rw [own_eq] at own_width ⊢
      rw [copied' (copy, entry.fixed) (mem_paramMoves.mpr ⟨entry, entry_mem, copied, rfl⟩),
        own_width]
      exact (congrArg param.width.truncate fixed_content).trans (Width.truncate_truncate _ _)

theorem agrees_bindParams {state : GraphState} {env : Env}
    (agrees : Agrees unit draft.scopes env state) (vals : Nat → Int) (first : Nat)
    (held : ∀ (idx : Nat) (param : ParamSlot) (entry : ParamEntry), params[idx]? = some param →
      (draft.bindParams params).2[idx]? = some entry →
      state.registers entry.own = param.width.truncate (vals (first + idx)))
    (sized : ∀ param ∈ params, unit.width? param.type = some param.width) :
    Agrees unit (draft.bindParams params).1.scopes ((params.zipIdx first).foldl
      (fun env (param, idx) =>
        (Eval.declare param.name (param.width.truncate (vals idx)) 0 env).2) env) state := by
  induction params generalizing draft env first with
  | nil => exact agrees
  | cons param rest ih =>
    have content := held 0 param (draft.paramEntry param) rfl rfl
    have holds : unit.Holds param.type (param.width.truncate (vals first)) := by
      grind [CompilationUnit.Holds, CompilationUnit.widthOf, Width.holds_truncate]
    have added : Agrees unit (draft.addParam param).scopes env state := by
      rw [addParam_eq]
      exact agrees
    have declared : Agrees unit (draft.bindParam param).scopes
        (Eval.declare param.name (param.width.truncate (vals first)) 0 env).2 state := by
      refine added.declare ?_ ?_ 0
      · exact content
      · exact holds
    refine ih declared (first + 1) (fun idx other entry other_at entry_at => ?_)
      fun other mem => sized other (.tail _ mem)
    rw [add_assoc, add_comm 1]
    exact held (idx + 1) other entry other_at entry_at

end Entry

theorem enterParams_runs (belong : around.Belong unit sig) (sized : sig.Sized unit)
    (valued : unit.HasValues) (ran : Lower.enterParams around {} = .ok ((), after)) :
    after.WellFormed unit ∧ after.typing = { scopes := [sig.paramTypes] } ∧
      ∀ {graph : Graph} (args : Nat → Int) (regs : VReg → Int) (memory : Address → Int),
        graph.Completes after → ∃ steps state, graph.ReachesIn args steps
            ⟨0, 0, { registers := Function.update regs 0 0, memory }⟩ (after.here state) ∧
          Agrees unit after.scopes { scopes := [sig.paramValues args], memory } state := by
  have wf := wellFormed_empty unit
  have fits : ∀ param ∈ around.signature.params, unit.registers.fits param.type param.ownInfo := by
    rw [belong.signature]
    intro param mem
    refine ⟨valued (sized.params param mem), ?_, param.ownInfo_signed⟩
    rw [param.ownInfo_width]
    exact sized.params param mem
  have after_eq := Lower.enterParams_ok ran
  rw [belong.signature] at after_eq fits
  subst after_eq
  have bound := (wf.bindParams fits).wellFormed
  obtain ⟨distinct, new⟩ := registers_bindParams {} sig.params
  obtain ⟨taken, taken_typing⟩ := bound.takeArguments (bindParams {} sig.params).2
  obtain ⟨moved, moved_typing⟩ :=
    taken.wellFormed.moveAll (paramMoves (bindParams {} sig.params).2)
  have bound_typing : (bindParams {} sig.params).1.typing =
      { scopes := [sig.paramTypes] } := by
    rw [typing_bindParams]
    exact List.foldl_hom (fun scope => ({ scopes := [scope] } : Typing)) fun _ _ => rfl
  have alive : (bindParams {} sig.params).1.isDead = false :=
    congrArg Typing.dead bound_typing
  refine ⟨moved.wellFormed, ?_, fun {graph} args regs memory completes => ?_⟩
  · rw [moved_typing, taken_typing, bound_typing]
  · obtain ⟨steps, state, reaches, memory_eq, kept, held⟩ := reaches_entry args bound alive
      (wf.enters_bindParams fits) distinct completes
      { registers := Function.update regs 0 0, memory }
    refine ⟨steps, state, ?_, ?_⟩
    · have start (start : GraphState) : (bindParams {} sig.params).1.here start =
          ⟨0, 0, start⟩ := by
        rw [bindParams_eq]
        rfl
      rw [start] at reaches
      exact reaches
    · have zero : state.registers 0 = 0 := by
        grind
      have empty : Agrees unit ({} : Draft).scopes { scopes := [[]], memory } state :=
        ⟨.cons .nil .nil, memory_eq, zero⟩
      have agrees := agrees_bindParams empty args 0 (fun idx param entry param_at entry_at => by
          grind) sized.params
      rw [moved.scopes, taken.scopes]
      exact cast (congrArg (Agrees unit _ · state)
        (List.foldl_hom (fun scope => ({ scopes := [scope], memory } : Env)) (by intros; rfl))) agrees

end Backend65816
