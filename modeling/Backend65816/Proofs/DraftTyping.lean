import Mathlib.Data.List.Nodup
import Backend65816.Proofs.DraftGrowth

/-!
# Scopes, loops and types of graphs under construction

The names in scope and the enclosing loops change while code is added. What a draft knows about
types is a typing, which the building steps change in the same way as the meanings of trees do.
-/

namespace Backend65816

open List Named

variable {typingChange : LoopTyping → LoopTyping} {scope : Named TypedReg} {name : String}
  {others : List VReg}

def EnclosingLoop.typing (loop : EnclosingLoop) : LoopTyping where
  label := loop.label
  type := loop.type
  hasValued := loop.hasValued
  hasBare := loop.hasBare

namespace Draft

/-! ## Scopes and loops -/

def pushScope (draft : Draft) : Draft := { draft with scopes := [] :: draft.scopes }

def popScope (draft : Draft) : Draft := { draft with scopes := draft.scopes.drop 1 }

def pushLoop (draft : Draft) (loop : EnclosingLoop) : Draft :=
  { draft with loops := loop :: draft.loops }

def popLoop (draft : Draft) : Draft := { draft with loops := draft.loops.drop 1 }

end Draft

theorem Named.mem_put {α : Type} {entries : Named α} {value : α} {entry : String × α}
    (mem : entry ∈ entries.put name value) : entry = (name, value) ∨ entry ∈ entries := by
  induction entries with
  | nil => exact .inl (mem_singleton.mp mem)
  | cons first rest ih =>
    grind [put]

theorem Named.nodup_put
    {value : TypedReg} (distinct : (scope.map (fun entry => entry.2.register) ++ others).Nodup)
    (new : value.register ∉ scope.map (fun entry => entry.2.register) ++ others) :
    ((scope.put name value).map (fun entry => entry.2.register) ++ others).Nodup := by
  induction scope with
  | nil => exact nodup_cons.mpr ⟨new, distinct⟩
  | cons entry rest ih =>
    rw [map_cons, cons_append] at distinct new
    obtain ⟨head_new, distinct⟩ := nodup_cons.mp distinct
    rw [mem_cons, not_or] at new
    unfold put
    split
    · grind
    · refine nodup_cons.mpr ⟨?_, ih distinct new.2⟩
      intro mem
      rcases mem_append.mp mem with mem | mem
      · obtain ⟨other, mem, same⟩ := mem_map.mp mem
        rcases mem_put mem with rfl | mem
        all_goals grind
      · simp_all

namespace Draft

section Scopes

variable {rule : RegisterRule} {draft first : Draft}

variable {value : TypedReg}

theorem WellFormed.pushScope (wf : draft.WellFormed rule) : draft.Evolves draft.pushScope rule where
  covered := .refl draft
  loops := .refl _
  changes _ := by
    rintro (known | ⟨scope, scope_mem, entry, entry_mem, stored, same⟩)
    · exact .inl known
    · rcases mem_cons.mp scope_mem with rfl | scope_mem
      · cases entry_mem
      · exact .inr ⟨scope, scope_mem, entry, entry_mem, stored, same⟩
  others _ _ := rfl
  current := .inl rfl
  wellFormed := {
    wf with
    locals := by
      intro scope scope_mem entry entry_mem
      rcases mem_cons.mp scope_mem with rfl | scope_mem
      · cases entry_mem
      · exact wf.locals scope_mem entry_mem }

theorem WellFormed.popScope (wf : draft.WellFormed rule) : draft.Evolves draft.popScope rule where
  covered := .refl draft
  loops := .refl _
  changes _ := by
    rintro (known | ⟨scope, scope_mem, rest⟩)
    · exact .inl known
    · exact .inr ⟨scope, mem_of_mem_drop scope_mem, rest⟩
  others _ _ := rfl
  current := .inl rfl
  wellFormed := {
    wf with
    locals := fun scope_mem => wf.locals (mem_of_mem_drop scope_mem)
    distinct := by
      have outer : (draft.scopes.drop 1).flatten.Sublist draft.scopes.flatten := by
        cases draft.scopes with
        | nil => exact .refl _
        | cons scope outer => simp
      have sublist : draft.popScope.owned.Sublist draft.owned := .append (outer.map _) (.refl _)
      exact wf.distinct.sublist sublist }

theorem mem_declare {entry : String × TypedReg}
    (scope_mem : scope ∈ (draft.declare name value).scopes) (entry_mem : entry ∈ scope) :
    entry = (name, value) ∨ ∃ scope ∈ draft.scopes, entry ∈ scope := by
  unfold declare at scope_mem
  split at scope_mem
  · next inner outer scopes_eq =>
    rcases mem_cons.mp scope_mem with rfl | scope_mem
    · rcases mem_put entry_mem with same | entry_mem
      all_goals simp_all
    · grind
  · simp_all

theorem declare_eq (draft : Draft) (name : String) (value : TypedReg) :
    draft.declare name value = { draft with scopes := (draft.declare name value).scopes } := by
  unfold declare
  split <;> rfl

theorem Leads.declare (leads : first.Leads draft) (new : first.vregs.size ≤ value.register) :
    first.Leads (draft.declare name value) := by
  rw [declare_eq]
  refine ⟨leads.covered, leads.loops, ?_⟩
  rintro names reg below (known | ⟨scope, scope_mem, entry, entry_mem, stored, same⟩)
  · exact leads.changes below (.inl known)
  · rcases mem_declare scope_mem entry_mem with rfl | ⟨scope, scope_mem, entry_mem⟩
    · grind
    · exact leads.changes below (.inr ⟨scope, scope_mem, entry, entry_mem, stored, same⟩)

theorem WellFormed.declare (wf : draft.WellFormed rule) (typed : draft.Typed rule value)
    (unowned : value.register ∉ draft.owned) : (draft.declare name value).WellFormed rule := by
  have distinct : (draft.declare name value).owned.Nodup := by
    have before := wf.distinct
    unfold owned at before unowned
    unfold owned Draft.declare
    cases scopes_eq : draft.scopes with
    | nil =>
      simp_all
    | cons scope outer =>
      simp only [scopes_eq, flatten_cons, map_append, append_assoc] at before unowned ⊢
      exact nodup_put before unowned
  rw [declare_eq]
  exact {
    current := wf.current
    noRegister := wf.noRegister
    locals := by
      intro scope scope_mem entry entry_mem
      rcases mem_declare scope_mem entry_mem with rfl | ⟨scope, scope_mem, entry_mem⟩
      · exact typed
      · exact wf.locals scope_mem entry_mem
    results := wf.results
    exits_lt := wf.exits_lt
    exits := wf.exits
    distinct := declare_eq draft name value ▸ distinct }

theorem Evolves.declare (evolves : first.Evolves draft rule) (typed : draft.Typed rule value)
    (new : first.vregs.size ≤ value.register) (unowned : value.register ∉ draft.owned) :
    first.Evolves (draft.declare name value) rule where
  toLeads := evolves.toLeads.declare new
  others := by
    rw [declare_eq]
    exact evolves.others
  current := by
    rw [declare_eq]
    exact evolves.current
  wellFormed := evolves.wellFormed.declare typed unowned

end Scopes

section Loops

variable {rule : RegisterRule} {draft first after : Draft}

variable {loop : EnclosingLoop} {loops : List EnclosingLoop} {exit : BlockId}
  {change : EnclosingLoop → EnclosingLoop} {value : TypedReg} {label : String}

theorem WellFormed.pushLoop (wf : draft.WellFormed rule) (empty : loop.result = none)
    (inside : loop.exit < draft.blocks.size)
    (new : loop.exit ∉ draft.loops.map EnclosingLoop.exit) :
    (draft.pushLoop loop).WellFormed rule :=
  { wf with
    results := by
      intro other mem reg known
      rcases mem_cons.mp mem with rfl | mem
      · rw [empty] at known
        cases known
      · exact wf.results mem known
    exits_lt := by
      intro other mem
      rcases mem_cons.mp mem with rfl | mem
      · exact inside
      · exact wf.exits_lt mem
    exits := nodup_cons.mpr ⟨new, wf.exits⟩
    distinct := by
      have owned_eq : (draft.pushLoop loop).owned = draft.owned := by
        rw [owned, owned, Draft.pushLoop, filterMap_cons_none empty]
      exact owned_eq ▸ wf.distinct }

theorem Leads.exists_loop (leads : (draft.pushLoop loop).Leads after) :
    ∃ later, after.loops = later :: after.popLoop.loops ∧ loop.Grows later ∧
      LoopsGrow draft.loops after.popLoop.loops := by
  cases loops_eq : after.loops with
  | nil =>
    have grow := leads.loops
    rw [loops_eq] at grow
    cases grow
  | cons later rest =>
    have grow := leads.loops
    rw [loops_eq] at grow
    cases grow with
    | cons grows grow =>
      simp_all [Draft.popLoop]

theorem Leads.popLoop (empty : loop.result = none) (leads : (draft.pushLoop loop).Leads after) :
    draft.Leads after.popLoop where
  covered := ⟨leads.covered.blocks, leads.covered.vregs⟩
  loops := by
    obtain ⟨_, _, _, grow⟩ := leads.exists_loop
    exact grow
  changes := by
    rintro names reg below changes
    have changes : after.Mutable names reg :=
      changes.imp_left fun ⟨loop, mem, known⟩ => ⟨loop, mem_of_mem_drop mem, known⟩
    rcases leads.changes below changes with ⟨other, mem, known⟩ | stored
    · rcases mem_cons.mp mem with rfl | mem
      · rw [empty] at known
        cases known
      · exact .inl ⟨other, mem, known⟩
    · exact .inr stored

theorem WellFormed.popLoop (wf : draft.WellFormed rule) : draft.popLoop.WellFormed rule :=
  { wf with
    results := fun mem => wf.results (mem_of_mem_drop mem)
    exits_lt := fun mem => wf.exits_lt (mem_of_mem_drop mem)
    exits := wf.exits.sublist ((drop_sublist 1 _).map _)
    distinct := wf.distinct.sublist (.append (.refl _) ((drop_sublist 1 _).filterMap _)) }

theorem Evolves.popLoop (empty : loop.result = none)
    (evolves : (draft.pushLoop loop).Evolves after rule) : draft.Evolves after.popLoop rule where
  toLeads := evolves.toLeads.popLoop empty
  others := evolves.others
  current := evolves.current
  wellFormed := evolves.wellFormed.popLoop

section

variable (grows : ∀ loop ∈ draft.loops, loop.exit = exit → loop.Grows (change loop))
include grows

theorem loopsGrow_modifyLoop : LoopsGrow draft.loops (draft.modifyLoop exit change).loops := by
  refine forall₂_map_right_iff.mpr (forall₂_same.mpr fun loop mem => ?_)
  split
  · next same => exact grows loop mem same
  · exact .refl loop

theorem Leads.modifyLoop (leads : first.Leads draft)
    (new : ∀ loop ∈ draft.loops, loop.exit = exit → ∀ reg,
      (change loop).result = some reg → loop.result = some reg ∨
        first.vregs.size ≤ reg) : first.Leads (draft.modifyLoop exit change) where
  covered := leads.covered
  loops := leads.loops.trans (loopsGrow_modifyLoop grows)
  changes := by
    rintro names reg below (⟨changed, mem, known⟩ | stored)
    · obtain ⟨loop, loop_mem, rfl⟩ := mem_map.mp mem
      split at known
      · next same =>
        rcases new loop loop_mem same reg known with known | new
        · exact leads.changes below (.inl ⟨loop, loop_mem, known⟩)
        · exact absurd below (Nat.not_lt_of_le new)
      · exact leads.changes below (.inl ⟨loop, loop_mem, known⟩)
    · exact leads.changes below (.inr stored)

theorem WellFormed.modifyLoop (wf : draft.WellFormed rule)
    (typed : ∀ loop ∈ draft.loops, loop.exit = exit → ∀ {register}, (change loop).result =
      some register → draft.Typed rule { register, type := (change loop).type })
    (distinct : (draft.modifyLoop exit change).owned.Nodup) :
    (draft.modifyLoop exit change).WellFormed rule := by
  have exits_eq := (loopsGrow_modifyLoop grows).exits_eq
  exact {
    wf with
    results := by
      intro changed mem reg known
      obtain ⟨loop, loop_mem, rfl⟩ := mem_map.mp mem
      split at known
      · next same =>
        rw [if_pos same]
        exact typed loop loop_mem same known
      · next other =>
        rw [if_neg other]
        exact wf.results loop_mem known
    exits_lt := by
      intro changed mem
      have exit_mem := mem_map_of_mem (f := EnclosingLoop.exit) mem
      rw [exits_eq] at exit_mem
      obtain ⟨loop, loop_mem, same⟩ := mem_map.mp exit_mem
      exact same ▸ wf.exits_lt loop_mem
    exits := exits_eq ▸ wf.exits
    distinct }

end

section

variable (grows : ∀ loop : EnclosingLoop, loop.Grows (change loop))
    (res : ∀ loop, (change loop).result = loop.result)
    (type : ∀ loop, (change loop).type = loop.type)
include grows res type

theorem WellFormed.modifyFlags (wf : draft.WellFormed rule) :
    (draft.modifyLoop exit change).WellFormed rule := by
  refine wf.modifyLoop (fun loop _ _ => grows loop) (fun loop mem _ reg known => ?_) ?_
  · rw [type]
    exact wf.results mem (res loop ▸ known)
  · have result_eq : ∀ loop : EnclosingLoop,
        (if loop.exit = exit then change loop else loop).result = loop.result := by
      grind
    have owned_eq : (draft.modifyLoop exit change).owned = draft.owned := by
      simp_all [owned, Draft.modifyLoop]
    exact owned_eq ▸ wf.distinct

theorem Evolves.modifyFlags (evolves : first.Evolves draft rule) :
    first.Evolves (draft.modifyLoop exit change) rule where
  toLeads := evolves.toLeads.modifyLoop (fun loop _ _ => grows loop)
    fun loop _ _ _ known => .inl (res loop ▸ known)
  others := evolves.others
  current := evolves.current
  wellFormed := evolves.wellFormed.modifyFlags grows res type

end

theorem nodup_results {reg : VReg}
    (exits : (loops.map EnclosingLoop.exit).Nodup) (res : ∀ loop, (change loop).result = some reg)
    (empty : ∀ loop ∈ loops, loop.exit = exit → loop.result = none)
    (distinct : (others ++ loops.filterMap EnclosingLoop.result).Nodup)
    (new : reg ∉ others ++ loops.filterMap EnclosingLoop.result) :
    (others ++ (loops.map fun loop => if loop.exit = exit then change loop else loop).filterMap
      EnclosingLoop.result).Nodup := by
  induction loops generalizing others with
  | nil => exact distinct
  | cons loop rest ih =>
    obtain ⟨other, exits⟩ := nodup_cons.mp exits
    rw [map_cons]
    by_cases same : loop.exit = exit
    · have rest_eq :
          (rest.map fun loop => if loop.exit = exit then change loop else loop) = rest := by
        simp_all [map_congr_left]
      rw [if_pos same, rest_eq, filterMap_cons_some (res loop), List.perm_middle.nodup_iff]
      rw [filterMap_cons_none (empty loop (.head _) same)] at distinct new
      exact nodup_cons.mpr ⟨new, distinct⟩
    · rw [if_neg same]
      have empty_rest : ∀ loop ∈ rest, loop.exit = exit → loop.result = none :=
        fun loop mem => empty loop (.tail _ mem)
      cases known : loop.result with
      | none =>
        rw [filterMap_cons_none known] at distinct new ⊢
        exact ih exits empty_rest distinct new
      | some own =>
        rw [filterMap_cons_some known, append_cons] at distinct new ⊢
        exact ih exits empty_rest distinct new

/-- The draft with a register for the values of a loop. -/
abbrev withResult (draft : Draft) (exit : BlockId) (value : TypedReg) : Draft :=
  draft.modifyLoop exit fun loop => { loop with type := value.type, result := some value.register }

section

variable (empty : ∀ loop ∈ draft.loops, loop.exit = exit → loop.result = none)
include empty

theorem grows_result (value : TypedReg) : ∀ loop ∈ draft.loops, loop.exit = exit → loop.Grows
      { loop with type := value.type, result := some value.register } := by
  intro loop mem same
  refine ⟨rfl, rfl, rfl, ?_, id, id⟩
  simp_all

theorem Leads.modifyResult (leads : first.Leads draft) (new : first.vregs.size ≤ value.register) :
    first.Leads (draft.withResult exit value) :=
  leads.modifyLoop (grows_result empty value) fun _ _ _ _ known =>
    .inr (Option.some.inj known ▸ new)

theorem WellFormed.modifyResult (wf : draft.WellFormed rule) (typed : draft.Typed rule value)
    (unowned : value.register ∉ draft.owned) : (draft.withResult exit value).WellFormed rule := by
  refine wf.modifyLoop (grows_result empty value) (fun _ _ _ _ known => ?_)
    (nodup_results wf.exits (fun _ => rfl) empty wf.distinct unowned)
  cases known
  exact typed

theorem Evolves.modifyResult (evolves : first.Evolves draft rule) (typed : draft.Typed rule value)
    (new : first.vregs.size ≤ value.register) (unowned : value.register ∉ draft.owned) :
    first.Evolves (draft.withResult exit value) rule where
  toLeads := evolves.toLeads.modifyResult empty new
  others := evolves.others
  current := evolves.current
  wellFormed := evolves.wellFormed.modifyResult empty typed unowned

end

theorem mem_of_findLoop? (found : draft.findLoop? label = some loop) : loop ∈ draft.loops :=
  mem_of_find?_eq_some found

theorem eq_of_exit_eq (exits : (loops.map EnclosingLoop.exit).Nodup) {other : EnclosingLoop}
    (mem : loop ∈ loops) (other_mem : other ∈ loops) (same : loop.exit = other.exit) :
    loop = other :=
  inj_on_of_nodup_map exits mem other_mem same

theorem find?_map_exit (found : loops.find? (fun loop => labelFits label loop.label) = some loop)
    (same : ∀ loop, (change loop).label = loop.label) :
    (loops.map fun other => if other.exit = loop.exit then change other else other).find?
      (fun loop => labelFits label loop.label) = some (change loop) := by
  have fits_eq : ((fun loop : EnclosingLoop => labelFits label loop.label) ∘ fun other =>
      if other.exit = loop.exit then change other else other) =
      fun loop => labelFits label loop.label := by
    grind
  rw [List.find?_map, fits_eq, found]
  simp

theorem map_typing_exit (exits : (loops.map EnclosingLoop.exit).Nodup)
    (found : loops.find? (fun loop => labelFits label loop.label) = some loop)
    (same : ∀ loop, (change loop).typing = typingChange loop.typing) :
    (loops.map fun other => if other.exit = loop.exit then change other else other).map
        EnclosingLoop.typing =
      modifyTarget label typingChange (loops.map EnclosingLoop.typing) := by
  induction loops with
  | nil => cases found
  | cons first rest ih =>
    change _ = if labelFits label first.label = true then _ else _
    cases fits : labelFits label first.label with
    | true =>
      simp_all
    | false =>
      grind

/-! ## Types -/

def typing (draft : Draft) : Typing where
  scopes := draft.scopes.map fun scope => scope.map fun entry => (entry.1, entry.2.type)
  loops := draft.loops.map EnclosingLoop.typing
  dead := draft.isDead

section Typing

theorem typing_of_same (scopes : after.scopes = draft.scopes) (loops : after.loops = draft.loops) :
    after.typing = { draft.typing with dead := after.isDead } := by
  rw [typing, typing, scopes, loops]

@[simp]
theorem typing_addReg (draft : Draft) (info : VRegInfo) :
    (draft.addReg info).typing = draft.typing := rfl

section

variable (wf : draft.WellFormed rule)
include wf

theorem WellFormed.typing_addBlock (name : String) :
    (draft.addBlock name).typing = draft.typing := by
  rw [typing_of_same rfl rfl, wf.isDead_addBlock]
  rfl

theorem WellFormed.typing_emit {action : Action} : (draft.emit action).typing = draft.typing := by
  rw [typing_of_same draft.emit_scopes draft.emit_loops, wf.isDead_emit]
  rfl

theorem WellFormed.typing_terminate (term : Terminator) :
    (draft.terminate term).typing = draft.typing.killed := by
  rw [typing_of_same (draft.terminate_scopes term) (draft.terminate_loops term),
    wf.isDead_terminate]
  rfl

end

theorem Fresh.typing_enter {id : BlockId} (fresh : draft.Fresh id) :
    (draft.enter id).typing = draft.typing.revived := by
  rw [typing_of_same rfl rfl, fresh.isDead_enter]
  rfl

section

variable (draft)

theorem typing_pushScope : draft.pushScope.typing = draft.typing.pushScope := rfl

theorem typing_popScope : draft.popScope.typing = draft.typing.popScope := by
  rw [typing, popScope, map_drop]
  rfl

theorem typing_popLoop : draft.popLoop.typing = draft.typing.popLoop := by
  rw [typing, popLoop, map_drop]
  rfl

theorem map_put (scope : Named TypedReg) (name : String) (value : TypedReg) :
    (scope.put name value).map (fun entry => (entry.1, entry.2.type)) =
      put (scope.map fun entry => (entry.1, entry.2.type)) name value.type := by
  induction scope with
  | nil => rfl
  | cons entry rest ih =>
    grind [put]

theorem typing_declare (name : String) (value : TypedReg) :
    (draft.declare name value).typing = draft.typing.declare name value.type := by
  unfold declare Typing.declare
  cases scopes_eq : draft.scopes with
  | nil =>
    simp only [typing, scopes_eq]
    rfl
  | cons scope outer =>
    simp only [typing, scopes_eq, map_cons, map_put]
    rfl

theorem typing_find? (name : String) :
    draft.typing.find? name = (draft.find? name).map TypedReg.type := by
  rw [Typing.find?, find?, typing]
  induction draft.scopes with
  | nil => rfl
  | cons scope outer ih =>
    have get_eq : get? (scope.map fun entry => (entry.1, entry.2.type)) name =
        (scope.get? name).map TypedReg.type := by
      rw [get?, get?, List.find?_map, Option.map_map, Option.map_map]
      rfl
    grind

end

theorem WellFormed.typing_modifyLoop (wf : draft.WellFormed rule)
    (found : draft.findLoop? label = some loop)
    (same : ∀ loop, (change loop).typing = typingChange loop.typing) :
    (draft.modifyLoop loop.exit change).typing = draft.typing.modifyLoop label typingChange := by
  unfold typing
  rw [Draft.modifyLoop, map_typing_exit wf.exits found same]
  rfl

theorem typing_loopType
    (found : draft.findLoop? label = some loop) : draft.typing.loopType label = loop.type := by
  rw [Typing.loopType, typing, List.find?_map]
  have found : draft.loops.find? ((fun loop => labelFits label loop.label) ∘ EnclosingLoop.typing) =
      some loop := found
  rw [found]
  rfl

end Typing

end Loops

end Draft

end Backend65816
