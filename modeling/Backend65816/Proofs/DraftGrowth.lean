import Mathlib.Data.List.Forall2
import Backend65816.Proofs.Evaluation

/-!
# Growth of graphs under construction

Lowering adds code and takes none away: a finished block stays as it is, other blocks than the
current one stay as they are until they are entered, and virtual registers keep what is known about
them. A graph completes a draft if it has all of its code and possibly more.
-/

namespace Backend65816

open List Array Option Nat EnclosingLoop

variable {first second draft third : Draft} {graph : Graph} {term : Terminator} {reg : VReg}
  {action : Action}

/-! ## More code -/

/-- A block with more code; one that is finished gets no more. -/
structure BasicBlock.Extends (before after : BasicBlock) : Prop where
  actions : before.actions <+: after.actions
  closed : before.terminator.isSome →
    after.actions = before.actions ∧ after.terminator = before.terminator

namespace BasicBlock.Extends

theorem refl (block : BasicBlock) : block.Extends block := ⟨prefix_refl _, fun _ => ⟨rfl, rfl⟩⟩

theorem trans {first second third : BasicBlock} (early : first.Extends second)
    (late : second.Extends third) : first.Extends third where
  actions := early.actions.trans late.actions
  closed finished := by
    obtain ⟨actions, term⟩ := early.closed finished
    obtain ⟨actions', terminator'⟩ := late.closed (term ▸ finished)
    simp_all

end BasicBlock.Extends

/-- All code of a draft occurs in blocks over registers. -/
structure Draft.CoveredBy (draft : Draft) (blocks : Array BasicBlock) (vregs : Array VRegInfo) :
    Prop where
  blocks : ∀ {id : BlockId} {block : BasicBlock}, draft.blocks[id]? = some block →
    ∃ longer, blocks[id]? = some longer ∧ block.Extends longer
  vregs : ∀ {register : VReg} {info : VRegInfo}, draft.vregs[register]? = some info →
    vregs[register]? = some info

/-- A graph has all code of a draft and possibly more. -/
def Graph.Completes (graph : Graph) (draft : Draft) : Prop :=
  draft.CoveredBy graph.blocks graph.vregs

namespace Draft.CoveredBy

theorem refl (draft : Draft) : draft.CoveredBy draft.blocks draft.vregs :=
  ⟨fun found => ⟨_, found, .refl _⟩, id⟩

theorem trans {blocks : Array BasicBlock} {vregs : Array VRegInfo}
    (early : first.CoveredBy second.blocks second.vregs) (late : second.CoveredBy blocks vregs) :
    first.CoveredBy blocks vregs where
  blocks found := by
    obtain ⟨mid, found, extends_middle⟩ := early.blocks found
    obtain ⟨last, found, extends_last⟩ := late.blocks found
    exact ⟨last, found, extends_middle.trans extends_last⟩
  vregs found := late.vregs (early.vregs found)

end Draft.CoveredBy

theorem Graph.completes_graph (draft : Draft) (name : String) (mode : Mode) :
    (draft.graph name mode).Completes draft := .refl draft

theorem Draft.info_of_getElem? {info : VRegInfo} (found : draft.vregs[reg]? = some info) :
    draft.info reg = info := by
  rw [Draft.info, getD_eq_getD_getElem?, found, getD_some]

theorem Graph.Completes.width_eq (completes : graph.Completes draft) {info : VRegInfo}
    (known : draft.vregs[reg]? = some info) : graph.width reg = info.width := by
  rw [Graph.width, Graph.info, getD_eq_getD_getElem?, completes.vregs known, getD_some]

/-- A loop of which more is known. Once it has a register for its values it keeps it. -/
structure EnclosingLoop.Grows (before after : EnclosingLoop) : Prop where
  label : after.label = before.label
  exit : after.exit = before.exit
  next : after.next = before.next
  result : ∀ {register : VReg}, before.result = some register →
    after.result = some register ∧ after.type = before.type
  valued : before.hasValued = true → after.hasValued = true
  bare : before.hasBare = true → after.hasBare = true

namespace EnclosingLoop.Grows

theorem refl (loop : EnclosingLoop) : loop.Grows loop :=
  ⟨rfl, rfl, rfl, fun known => ⟨known, rfl⟩, id, id⟩

theorem trans {first second third : EnclosingLoop} (early : first.Grows second)
    (late : second.Grows third) : first.Grows third where
  label := late.label.trans early.label
  exit := late.exit.trans early.exit
  next := late.next.trans early.next
  result known := by
    obtain ⟨known, type_eq⟩ := early.result known
    obtain ⟨known, type_eq'⟩ := late.result known
    exact ⟨known, type_eq'.trans type_eq⟩
  valued known := late.valued (early.valued known)
  bare known := late.bare (early.bare known)

end EnclosingLoop.Grows

abbrev LoopsGrow : List EnclosingLoop → List EnclosingLoop → Prop :=
  List.Forall₂ EnclosingLoop.Grows

theorem LoopsGrow.refl (loops : List EnclosingLoop) : LoopsGrow loops loops := by
  induction loops with
  | nil => exact .nil
  | cons loop outer ih => exact .cons (.refl loop) ih

theorem LoopsGrow.trans {first second third : List EnclosingLoop} (early : LoopsGrow first second)
    (late : LoopsGrow second third) : LoopsGrow first third := by
  induction early generalizing third with
  | nil => exact late
  | cons grows _ ih =>
    cases late with
    | cons grows' late => exact .cons (grows.trans grows') (ih late)

theorem LoopsGrow.exits_eq {before after : List EnclosingLoop} (grow : LoopsGrow before after) :
    after.map exit = before.map exit := by
  induction grow with
  | nil => rfl
  | cons grows _ ih => rw [List.map_cons, List.map_cons, grows.exit, ih]

theorem LoopsGrow.find {before after : List EnclosingLoop} (grow : LoopsGrow before after)
    {label : String} {loop : EnclosingLoop}
    (found : before.find? (fun loop => labelFits label loop.label) = some loop) :
    ∃ later, after.find? (fun loop => labelFits label loop.label) = some later ∧
      loop.Grows later := by
  induction grow with
  | nil => cases found
  | @cons loop later outer outer' grows _ ih =>
    rw [List.find?_cons] at found ⊢
    rw [grows.label]
    grind

/-- What a register is like that holds values of a type. -/
structure RegisterRule where
  fits : Ty → VRegInfo → Prop

/-- Registers have the width and the sign of a type that has values. -/
@[coe]
def CompilationUnit.registers (unit : CompilationUnit) : RegisterRule where
  fits type info := type.hasValues = true ∧ unit.width? type = some info.width ∧
    info.signed = type.isSigned

instance : Coe CompilationUnit RegisterRule := ⟨CompilationUnit.registers⟩

namespace Draft

variable {names : List String} {before after : Draft} {id : BlockId}

/-- Code may change the register: it holds the values of a loop, or a name that is stored to. -/
def Mutable (draft : Draft) (names : List String) (register : VReg) : Prop :=
  (∃ loop ∈ draft.loops, loop.result = some register) ∨
    ∃ scope ∈ draft.scopes, ∃ entry ∈ scope, entry.1 ∈ names ∧ entry.2.register = register

theorem Mutable.mono {more : List String}
    (changes : draft.Mutable names reg) (subset : names ⊆ more) : draft.Mutable more reg :=
  changes.imp_right fun ⟨scope, scope_mem, entry, entry_mem, stored, same⟩ =>
    ⟨scope, scope_mem, entry, entry_mem, subset stored, same⟩

/-- A later draft has all code of an earlier one, and of the earlier registers it may change only
those that could be changed before. -/
structure Leads (before after : Draft) : Prop where
  covered : before.CoveredBy after.blocks after.vregs
  loops : LoopsGrow before.loops after.loops
  changes : ∀ {names : List String} {register : VReg}, register < before.vregs.size →
    after.Mutable names register → before.Mutable names register

/-- A later draft to which code was added only at the current block and in new ones. -/
structure Grows (before after : Draft) : Prop extends Leads before after where
  others : ∀ {id : BlockId}, id < before.blocks.size → id ≠ before.current →
    after.blocks[id]? = before.blocks[id]?
  current : after.current = before.current ∨ before.blocks.size ≤ after.current

theorem Leads.vregs_le (leads : before.Leads after) : before.vregs.size ≤ after.vregs.size := by
  by_contra less
  have found := leads.covered.vregs (Array.getElem?_eq_getElem (Nat.lt_of_not_le less))
  simp_all

theorem Leads.blocks_le (leads : before.Leads after) : before.blocks.size ≤ after.blocks.size := by
  by_contra less
  obtain ⟨_, found, _⟩ := leads.covered.blocks (Array.getElem?_eq_getElem (Nat.lt_of_not_le less))
  simp_all

theorem Leads.refl (draft : Draft) : draft.Leads draft :=
  ⟨.refl draft, .refl _, fun _ changes => changes⟩

theorem Leads.trans (early : first.Leads second)
    (late : second.Leads third) : first.Leads third where
  covered := early.covered.trans late.covered
  loops := early.loops.trans late.loops
  changes below changes :=
    early.changes below (late.changes (lt_of_lt_of_le below early.vregs_le) changes)

theorem Leads.completes (leads : before.Leads after)
    (completes : graph.Completes after) : graph.Completes before :=
  leads.covered.trans completes

theorem Leads.enter (leads : before.Leads after) (id : BlockId) : before.Leads (after.enter id) :=
  ⟨leads.covered, leads.loops, leads.changes⟩

theorem Grows.refl (draft : Draft) : draft.Grows draft :=
  { Leads.refl draft with others := fun _ _ => rfl, current := .inl rfl }

theorem Grows.trans (early : first.Grows second)
    (late : second.Grows third) : first.Grows third where
  toLeads := early.toLeads.trans late.toLeads
  others below other := by
    have below' := lt_of_lt_of_le below early.blocks_le
    rw [late.others below' ?_, early.others below other]
    rcases early.current with same | new
    all_goals grind
  current := by
    have le := early.blocks_le
    rcases late.current with same | new
    · rw [same]
      exact early.current
    · exact .inr (le_trans le new)

theorem Grows.enter (grows : before.Grows after) (new : before.blocks.size ≤ id) :
    before.Grows (after.enter id) where
  toLeads := grows.toLeads.enter id
  others := grows.others
  current := .inr new

def Fresh (draft : Draft) (id : BlockId) : Prop :=
  id ≠ draft.current ∧ ∃ name, draft.blocks[id]? = some { name }

namespace Fresh

section

variable (fresh : draft.Fresh id)
include fresh

theorem lt_size : id < draft.blocks.size := by
  obtain ⟨_, _, found⟩ := fresh
  grind

theorem of_grows (grows : draft.Grows after) : after.Fresh id := by
  have below := fresh.lt_size
  obtain ⟨other, name, found⟩ := fresh
  refine ⟨?_, name, (grows.others below other).trans found⟩
  rcases grows.current with same | new
  all_goals grind

theorem enter {entered : BlockId} (other : id ≠ entered) : (draft.enter entered).Fresh id :=
  ⟨other, fresh.2⟩

theorem currentBlock_enter : ∃ name, (draft.enter id).currentBlock = { name } := by
  obtain ⟨_, name, found⟩ := fresh
  refine ⟨name, ?_⟩
  change draft.blocks.getD id {} = _
  simp_all

theorem isDead_enter : (draft.enter id).isDead = false := by
  obtain ⟨name, block_eq⟩ := fresh.currentBlock_enter
  rw [isDead, isClosed, block_eq]
  rfl

end

end Fresh

/-! ## Well-formed drafts -/

def Typed (draft : Draft) (rule : RegisterRule) (value : TypedReg) : Prop :=
  value.register ≠ 0 ∧
    ∃ info, draft.vregs[value.register]? = some info ∧ rule.fits value.type info

/-- Registers of the names in scope and of the values of loops. -/
def owned (draft : Draft) : List VReg :=
  draft.scopes.flatten.map (fun entry => entry.2.register) ++
    draft.loops.filterMap result

/-- What holds of every draft that lowering builds. -/
structure WellFormed (draft : Draft) (rule : RegisterRule) : Prop where
  current : draft.current < draft.blocks.size
  noRegister : draft.vregs[0]? = some ({} : VRegInfo)
  locals : ∀ {scope : Named TypedReg}, scope ∈ draft.scopes →
    ∀ {entry : String × TypedReg}, entry ∈ scope → draft.Typed rule entry.2
  results : ∀ {loop : EnclosingLoop}, loop ∈ draft.loops → ∀ {register : VReg},
    loop.result = some register → draft.Typed rule { register, type := loop.type }
  exits_lt : ∀ {loop : EnclosingLoop}, loop ∈ draft.loops → loop.exit < draft.blocks.size
  exits : (draft.loops.map exit).Nodup
  distinct : draft.owned.Nodup

section Typed

variable {rule : RegisterRule} {value : TypedReg}

theorem Typed.lt_size (typed : draft.Typed rule value) : value.register < draft.vregs.size := by
  obtain ⟨_, _, found, _⟩ := typed
  grind

theorem Typed.of_vregs (typed : draft.Typed rule value)
    (kept : ∀ {reg : VReg} {info : VRegInfo}, draft.vregs[reg]? = some info →
      after.vregs[reg]? = some info) : after.Typed rule value := by
  obtain ⟨nonzero, info, found, fits⟩ := typed
  exact ⟨nonzero, info, kept found, fits⟩

theorem Typed.hasValues {unit : CompilationUnit} (typed : draft.Typed unit value) :
    value.type.hasValues = true := by
  obtain ⟨_, _, _, valued, _⟩ := typed
  exact valued

theorem mem_owned_iff : reg ∈ draft.owned ↔
      (∃ scope ∈ draft.scopes, ∃ entry ∈ scope, entry.2.register = reg) ∨
        ∃ loop ∈ draft.loops, loop.result = some reg := by
  simp only [owned]
  grind

theorem Mutable.mem_owned (changes : draft.Mutable names reg) : reg ∈ draft.owned := by
  rw [mem_owned_iff]
  rcases changes with known | ⟨scope, scope_mem, entry, entry_mem, _, same⟩
  all_goals grind

section

variable (wf : draft.WellFormed rule)
include wf

theorem WellFormed.owned_typed (owned : reg ∈ draft.owned) : reg ≠ 0 ∧ reg < draft.vregs.size := by
  rcases mem_owned_iff.mp owned with ⟨scope, scope_mem, entry, entry_mem, rfl⟩ | ⟨loop, mem, known⟩
  · exact ⟨(wf.locals scope_mem entry_mem).1, (wf.locals scope_mem entry_mem).lt_size⟩
  · exact ⟨(wf.results mem known).1, (wf.results mem known).lt_size⟩

theorem WellFormed.vregs_pos : 0 < draft.vregs.size :=
  (Array.getElem?_eq_some_iff.mp wf.noRegister).1

variable (names)

theorem WellFormed.not_mutable_zero : ¬draft.Mutable names 0 :=
  fun changes => (wf.owned_typed changes.mem_owned).1 rfl

theorem WellFormed.not_mutable_new (new : draft.vregs.size ≤ reg) : ¬draft.Mutable names reg :=
  fun changes => Nat.not_le_of_lt (wf.owned_typed changes.mem_owned).2 new

theorem WellFormed.of_same
    (cur : after.current < after.blocks.size) (blocks : draft.blocks.size ≤ after.blocks.size)
    (vregs : ∀ {reg : VReg} {info : VRegInfo}, draft.vregs[reg]? = some info →
      after.vregs[reg]? = some info) (scopes : after.scopes = draft.scopes)
    (loops : after.loops = draft.loops) : after.WellFormed rule where
  current := cur
  noRegister := vregs wf.noRegister
  locals scope_mem _ entry_mem := (wf.locals (scopes ▸ scope_mem) entry_mem).of_vregs vregs
  results loop_mem _ known := (wf.results (loops ▸ loop_mem) known).of_vregs vregs
  exits_lt loop_mem := lt_of_lt_of_le (wf.exits_lt (loops ▸ loop_mem)) blocks
  exits := loops ▸ wf.exits
  distinct := by
    have owned_eq : after.owned = draft.owned := by rw [owned, owned, scopes, loops]
    exact owned_eq ▸ wf.distinct

end

end Typed

/-- A well-formed draft to which code was added at the current block and in new ones. -/
structure Evolves (before after : Draft) (rule : RegisterRule) : Prop
    extends Grows before after where
  wellFormed : after.WellFormed rule

section Evolves

variable {rule : RegisterRule}

theorem Evolves.trans (early : first.Evolves second rule) (late : second.Evolves third rule) :
    first.Evolves third rule :=
  { early.toGrows.trans late.toGrows with wellFormed := late.wellFormed }

theorem WellFormed.evolves (wf : draft.WellFormed rule) : draft.Evolves draft rule :=
  { Grows.refl draft with wellFormed := wf }

theorem Evolves.enter (evolves : first.Evolves second rule) (fresh : second.Fresh id)
    (new : first.blocks.size ≤ id) : first.Evolves (second.enter id) rule where
  toGrows := evolves.toGrows.enter new
  wellFormed := evolves.wellFormed.of_same fresh.lt_size le_rfl (fun known => known) rfl rfl

theorem WellFormed.enter (wf : draft.WellFormed rule) (fresh : draft.Fresh id) :
    (draft.enter id).WellFormed rule :=
  wf.of_same fresh.lt_size le_rfl (fun known => known) rfl rfl

end Evolves

/-! ## Adding code -/

section Code

variable {rule : RegisterRule}

theorem Mutable.of_same (scopes : after.scopes = draft.scopes) (loops : after.loops = draft.loops)
    {reg : VReg} (changes : after.Mutable names reg) : draft.Mutable names reg := by
  simp_all [Mutable]

theorem Grows.of_same (scopes : after.scopes = draft.scopes) (loops : after.loops = draft.loops)
    (covered : draft.CoveredBy after.blocks after.vregs)
    (others : ∀ {id : BlockId}, id < draft.blocks.size → id ≠ draft.current →
      after.blocks[id]? = draft.blocks[id]?)
    (cur : after.current = draft.current ∨ draft.blocks.size ≤ after.current) :
    draft.Grows after where
  covered := covered
  loops := loops ▸ .refl _
  changes _ changes := changes.of_same scopes loops
  others := others
  current := cur

theorem getElem?_push_of_some {α : Type} {items : Array α} {idx : Nat} {item : α} (last : α)
    (found : items[idx]? = some item) : (items.push last)[idx]? = some item := by
  grind

section

variable (wf : draft.WellFormed rule)
include wf

theorem WellFormed.addReg (info : VRegInfo) : draft.Evolves (draft.addReg info) rule where
  toGrows := .of_same rfl rfl
    ⟨fun found => ⟨_, found, .refl _⟩, getElem?_push_of_some info⟩ (fun _ _ => rfl) (.inl rfl)
  wellFormed := wf.of_same wf.current le_rfl (getElem?_push_of_some info) rfl rfl

theorem WellFormed.addBlock (name : String) : draft.Evolves (draft.addBlock name) rule where
  toGrows := by
    refine .of_same rfl rfl
      ⟨fun found => ⟨_, getElem?_push_of_some _ found, .refl _⟩, id⟩ ?_ (.inl rfl)
    intro id below _
    exact (Array.getElem?_push).trans (if_neg (Nat.ne_of_lt below))
  wellFormed := by
    have size_eq : (draft.addBlock name).blocks.size = draft.blocks.size + 1 := size_push ..
    have cur := wf.current
    refine wf.of_same ?_ (by omega) id rfl rfl
    exact lt_of_lt_of_eq (lt_succ_of_lt cur) size_eq.symm

theorem WellFormed.fresh_addBlock (name : String) : (draft.addBlock name).Fresh draft.blocks.size :=
  ⟨ne_of_gt wf.current, name, Array.getElem?_push_size⟩

end

theorem getElem?_current (inside : draft.current < draft.blocks.size) :
    draft.blocks[draft.current]? = some draft.currentBlock := by
  rw [currentBlock, getD_eq_getD_getElem?, Array.getElem?_eq_getElem inside, getD_some]

theorem currentBlock_of_getElem? {block : BasicBlock}
    (found : draft.blocks[draft.current]? = some block) : draft.currentBlock = block := by
  rw [currentBlock, getD_eq_getD_getElem?, found, getD_some]

theorem getElem?_modifyCurrent (change : BasicBlock → BasicBlock) (id : BlockId) :
    (draft.modifyCurrent change).blocks[id]? =
      if draft.current = id then draft.blocks[id]?.map change else draft.blocks[id]? :=
  Array.getElem?_modify

theorem getElem?_modifyCurrent_self (inside : draft.current < draft.blocks.size)
    (change : BasicBlock → BasicBlock) :
    (draft.modifyCurrent change).blocks[draft.current]? = some (change draft.currentBlock) := by
  rw [getElem?_modifyCurrent, if_pos rfl, getElem?_current inside, map_some]

theorem currentBlock_modifyCurrent (inside : draft.current < draft.blocks.size)
    (change : BasicBlock → BasicBlock) :
    (draft.modifyCurrent change).currentBlock = change draft.currentBlock :=
  currentBlock_of_getElem? (getElem?_modifyCurrent_self inside change)

section

variable (wf : draft.WellFormed rule)
include wf

theorem WellFormed.modifyCurrent {change : BasicBlock → BasicBlock}
    (longer : draft.currentBlock.Extends (change draft.currentBlock)) :
    draft.Evolves (draft.modifyCurrent change) rule where
  toGrows := by
    refine .of_same rfl rfl ⟨?_, id⟩ ?_ (.inl rfl)
    · intro id block found
      rw [getElem?_modifyCurrent]
      split
      · next same =>
        subst same
        rw [getElem?_current wf.current] at found ⊢
        simp_all
      · exact ⟨block, found, .refl block⟩
    · intro id _ other
      rw [getElem?_modifyCurrent, if_neg (Ne.symm other)]
  wellFormed := by
    have size_eq : (draft.modifyCurrent change).blocks.size = draft.blocks.size := size_modify
    refine wf.of_same ?_ (le_of_eq size_eq.symm) id rfl rfl
    exact lt_of_lt_of_eq wf.current size_eq.symm

theorem WellFormed.reopen : draft.Evolves draft.reopen rule := by
  unfold Draft.reopen
  split
  · have added := wf.addBlock "dead"
    have entered := added.enter (wf.fresh_addBlock "dead") le_rfl
    exact {
      toGrows := .of_same rfl rfl entered.covered entered.others entered.current
      wellFormed := entered.wellFormed.of_same entered.wellFormed.current le_rfl id rfl rfl }
  · exact wf.evolves

theorem WellFormed.isClosed_reopen : draft.reopen.isClosed = false := by
  unfold Draft.reopen
  split
  · obtain ⟨name, block_eq⟩ := (wf.fresh_addBlock "dead").currentBlock_enter
    change ((draft.addBlock "dead").enter draft.blocks.size).currentBlock.terminator.isSome = false
    rw [block_eq]
    rfl
  · next opened => simpa using opened

end

theorem reopen_of_alive (alive : draft.isDead = false) : draft.reopen = draft := by
  simp_all [isDead, reopen]

theorem WellFormed.emit (wf : draft.WellFormed rule) (action : Action) :
    draft.Evolves (draft.emit action) rule := by
  refine wf.reopen.trans (wf.reopen.wellFormed.modifyCurrent ⟨prefix_append _ _, ?_⟩)
  intro finished
  rw [← isClosed, wf.isClosed_reopen] at finished
  cases finished

theorem WellFormed.terminate (wf : draft.WellFormed rule) (term : Terminator) :
    draft.Evolves (draft.terminate term) rule := by
  refine wf.reopen.trans (wf.reopen.wellFormed.modifyCurrent ⟨prefix_refl _, ?_⟩)
  intro finished
  rw [← isClosed, wf.isClosed_reopen] at finished
  cases finished

section

variable (draft)

@[simp]
theorem reopen_scopes : draft.reopen.scopes = draft.scopes := by
  unfold reopen
  split <;> rfl

@[simp]
theorem reopen_loops : draft.reopen.loops = draft.loops := by
  unfold reopen
  split <;> rfl

@[simp]
theorem reopen_vregs : draft.reopen.vregs = draft.vregs := by
  unfold reopen
  split <;> rfl

variable {action : Action}

@[simp]
theorem emit_scopes : (draft.emit action).scopes = draft.scopes := draft.reopen_scopes

@[simp]
theorem emit_loops : (draft.emit action).loops = draft.loops := draft.reopen_loops

@[simp]
theorem emit_vregs : (draft.emit action).vregs = draft.vregs := draft.reopen_vregs

variable (term)

@[simp]
theorem terminate_scopes : (draft.terminate term).scopes = draft.scopes := draft.reopen_scopes

@[simp]
theorem terminate_loops : (draft.terminate term).loops = draft.loops := draft.reopen_loops

@[simp]
theorem terminate_vregs : (draft.terminate term).vregs = draft.vregs := draft.reopen_vregs

theorem unreached_reopen : draft.reopen.unreached = draft.isDead := by
  unfold reopen isDead
  grind

end

variable (wf : draft.WellFormed rule)
include wf

theorem WellFormed.isDead_emit : (draft.emit action).isDead = draft.isDead := by
  have opened : (draft.emit action).isClosed = false := by
    rw [isClosed, Draft.emit, currentBlock_modifyCurrent wf.reopen.wellFormed.current]
    exact wf.isClosed_reopen
  rw [isDead, opened, Bool.or_false]
  exact draft.unreached_reopen

theorem WellFormed.isDead_terminate (term : Terminator) : (draft.terminate term).isDead = true := by
  rw [isDead, isClosed, Draft.terminate, currentBlock_modifyCurrent wf.reopen.wellFormed.current]
  exact Bool.or_true _

theorem WellFormed.currentBlock_addBlock (name : String) :
    (draft.addBlock name).currentBlock = draft.currentBlock :=
  currentBlock_of_getElem? (getElem?_push_of_some _ (getElem?_current wf.current))

theorem WellFormed.isDead_addBlock (name : String) :
    (draft.addBlock name).isDead = draft.isDead := by
  rw [isDead, isClosed, wf.currentBlock_addBlock]
  rfl

end Code

/-! ## Running code -/

def here (draft : Draft) (state : GraphState) : GraphPoint where
  block := draft.current
  position := draft.currentBlock.actions.length
  state := state

theorem Fresh.here_enter (fresh : draft.Fresh id) (state : GraphState) :
    (draft.enter id).here state = ⟨id, 0, state⟩ := by
  obtain ⟨name, block_eq⟩ := fresh.currentBlock_enter
  rw [here, block_eq]
  rfl

end Draft

namespace Graph.Completes

variable {rule : RegisterRule} {args : Nat → Int} {state : GraphState}

theorem step_emit (completes : graph.Completes (draft.emit action))
    (wf : draft.WellFormed rule) (alive : draft.isDead = false) {after : GraphState}
    (acts : graph.act args state action = some after) :
    graph.step args (draft.here state) = some (.inl ((draft.emit action).here after)) := by
  have emit_eq : draft.emit action = draft.modifyCurrent fun block =>
      { block with actions := block.actions ++ [action] } := by
    rw [Draft.emit, Draft.reopen_of_alive alive]
  rw [emit_eq] at completes ⊢
  have block_eq := Draft.currentBlock_modifyCurrent wf.current fun block =>
    { block with actions := block.actions ++ [action] }
  obtain ⟨longer, found, extends_longer⟩ :=
    completes.blocks (Draft.getElem?_modifyCurrent_self wf.current _)
  have next : longer.actions[draft.currentBlock.actions.length]? = some action := by
    obtain ⟨rest, actions_eq⟩ := extends_longer.actions
    grind
  rw [Draft.here, Draft.here, block_eq, length_append]
  exact step_action found next acts

theorem exists_terminated (completes : graph.Completes (draft.terminate term))
    (wf : draft.WellFormed rule) (alive : draft.isDead = false) :
    ∃ block, graph.blocks[draft.current]? = some block ∧
      block.actions.length ≤ draft.currentBlock.actions.length ∧
      block.terminator = some term := by
  have terminate_eq : draft.terminate term = draft.modifyCurrent fun block =>
      { block with terminator := some term } := by
    rw [Draft.terminate, Draft.reopen_of_alive alive]
  rw [terminate_eq] at completes
  obtain ⟨longer, found, extends_longer⟩ :=
    completes.blocks (Draft.getElem?_modifyCurrent_self wf.current _)
  obtain ⟨actions_eq, terminator_eq⟩ := extends_longer.closed rfl
  simp_all

theorem step_terminate (completes : graph.Completes (draft.terminate term))
    (wf : draft.WellFormed rule) (alive : draft.isDead = false) {target : BlockId}
    (follows : term.follow state = some (.inl target)) :
    graph.step args (draft.here state) = some (.inl ⟨target, 0, state⟩) := by
  obtain ⟨block, found, done, ends⟩ := completes.exists_terminated wf alive
  exact step_terminator found done ends follows

theorem step_giveBack {vals : List VReg}
    (completes : graph.Completes (draft.terminate (.giveBack vals))) (wf : draft.WellFormed rule)
    (alive : draft.isDead = false) :
    graph.step args (draft.here state) = some (.inr (vals.map state.registers, state.memory)) := by
  obtain ⟨block, found, done, ends⟩ := completes.exists_terminated wf alive
  exact step_return found done ends rfl

end Graph.Completes

end Backend65816
