import Backend65816.Proofs.DraftTyping

/-!
# Agreement of registers with an evaluation

A run of a graph agrees with an evaluation when the register of every name in scope holds the value
of the name, and memory holds the same. Storing to the register of a name is an assignment; storing
to a register that is new changes no name.
-/

namespace Backend65816

open List Option GraphState

variable {vals : Named Int} {target : VReg}

def CompilationUnit.Holds (unit : CompilationUnit) (type : Ty) (number : Int) : Prop :=
  (unit.widthOf type).Holds number

def HoldsName (unit : CompilationUnit) (state : GraphState) (entry : String × TypedReg)
    (value : String × Int) : Prop :=
  entry.1 = value.1 ∧ state.registers entry.2.register = value.2 ∧ unit.Holds entry.2.type value.2

/-- Registers and memory hold what names and memory hold in an evaluation. -/
structure Agrees (unit : CompilationUnit) (scopes : List (Named TypedReg)) (env : Env)
    (state : GraphState) : Prop where
  scopes : List.Forall₂ (List.Forall₂ (HoldsName unit state)) scopes env.scopes
  memory : state.memory = env.memory
  zero : state.registers 0 = 0

theorem forall₂_imp_of_mem {α β : Type} {before after : α → β → Prop} {items : List α}
    {others : List β} (related : List.Forall₂ before items others)
    (imp : ∀ item ∈ items, ∀ other, before item other → after item other) :
    List.Forall₂ after items others := by
  induction related with
  | nil => exact .nil
  | cons first _ ih =>
    simp_all

namespace Agrees

variable {unit : CompilationUnit} {scopes : List (Named TypedReg)} {env : Env}
  {state after : GraphState}

variable {scope : Named TypedReg} {draft : Draft} {name : String} {value : TypedReg} {num : Int}

section

variable (agrees : Agrees unit scopes env state)
include agrees

theorem drop (count : Nat) :
    Agrees unit (scopes.drop count) { env with scopes := env.scopes.drop count } state :=
  { agrees with scopes := forall₂_drop count agrees.scopes }

theorem pushScope : Agrees unit ([] :: scopes) { env with scopes := [] :: env.scopes } state :=
  { agrees with scopes := .cons .nil agrees.scopes }

end

theorem get? (held : List.Forall₂ (HoldsName unit state) scope vals) (name : String) :
    (scope.get? name = none ∧ vals.get? name = none) ∨
      ∃ value num, scope.get? name = some value ∧ vals.get? name = some num ∧
        state.registers value.register = num ∧ unit.Holds value.type num := by
  induction held with
  | nil => exact .inl ⟨rfl, rfl⟩
  | @cons entry value scope vals first _ ih =>
    by_cases same : entry.1 = name
    · refine .inr ⟨entry.2, value.2, ?_, ?_, first.2⟩
      · simp [Named.get?, same]
      · simp [Named.get?, ← first.1, same]
    · have other : value.1 ≠ name := first.1 ▸ same
      simpa [Named.get?, same, other] using ih

theorem find? (agrees : Agrees unit draft.scopes env state)
    (found : draft.find? name = some value) :
    (env.scopes.findSome? fun scope => scope.get? name) = some (state.registers value.register) ∧
      unit.Holds value.type (state.registers value.register) := by
  rw [Draft.find?] at found
  have held := agrees.scopes
  generalize env.scopes = vals at held
  generalize draft.scopes = scopes at held found
  induction held with
  | nil => cases found
  | @cons scope vals scopes outer first _ ih =>
    rcases Agrees.get? first name with ⟨scope_none, values_none⟩ | ⟨value, num, scope_some, rest⟩
    all_goals simp_all

section

variable (held : List.Forall₂ (HoldsName unit state) scope vals)
include held

theorem of_kept_scope
    (kept : ∀ entry ∈ scope, after.registers entry.2.register = state.registers entry.2.register) :
    List.Forall₂ (HoldsName unit after) scope vals :=
  forall₂_imp_of_mem held fun entry entry_mem _ held =>
    ⟨held.1, (kept entry entry_mem).trans held.2.1, held.2.2⟩

theorem put (content : state.registers value.register = num) (holds : unit.Holds value.type num) :
    List.Forall₂ (HoldsName unit state) (scope.put name value) (vals.put name num) := by
  induction held with
  | nil => exact .cons ⟨rfl, content, holds⟩ .nil
  | @cons entry own scope vals first rest ih =>
    rw [Named.put, Named.put, ← first.1]
    split
    · exact .cons ⟨rfl, content, holds⟩ rest
    · exact .cons first ih

end

theorem declare (agrees : Agrees unit draft.scopes env state)
    (content : state.registers value.register = num) (holds : unit.Holds value.type num)
    (fuel : Nat) :
    Agrees unit (draft.declare name value).scopes (Eval.declare name num fuel env).2 state where
  scopes := by
    have held := agrees.scopes
    unfold Draft.declare Eval.declare
    cases scopes_eq : draft.scopes with
    | nil =>
      rw [scopes_eq] at held
      cases values_eq : env.scopes with
      | nil => exact .cons (.cons ⟨rfl, content, holds⟩ .nil) .nil
      | cons first rest =>
        rw [values_eq] at held
        cases held
    | cons scope outer =>
      rw [scopes_eq] at held
      cases values_eq : env.scopes with
      | nil =>
        rw [values_eq] at held
        cases held
      | cons first rest =>
        simp_all [put]
  memory := agrees.memory
  zero := agrees.zero

theorem has_eq : vals.has name = (vals.get? name).isSome := by
  rw [Named.has, Named.get?, Option.isSome_map, Bool.eq_iff_iff, List.any_eq_true,
    List.find?_isSome]

section

variable (content : after.registers value.register = num) (holds : unit.Holds value.type num)
  (kept : ∀ reg ≠ value.register, after.registers reg = state.registers reg)
include content holds kept

theorem put_self (held : List.Forall₂ (HoldsName unit state) scope vals)
    (found : scope.get? name = some value)
    (distinct : (scope.map fun entry => entry.2.register).Nodup) :
    List.Forall₂ (HoldsName unit after) scope (vals.put name num) := by
  induction held with
  | nil => cases found
  | @cons entry own scope vals first rest ih =>
    obtain ⟨other, distinct⟩ := nodup_cons.mp distinct
    rw [Named.get?, List.find?_cons] at found
    rw [Named.put, ← first.1]
    by_cases same : entry.1 = name
    · rw [decide_eq_true same] at found
      cases found
      rw [if_pos same]
      refine .cons ⟨same, content, holds⟩ (of_kept_scope rest fun entry' mem => kept _ ?_)
      grind
    · rw [decide_eq_false same] at found
      rw [if_neg same]
      refine .cons ⟨first.1, (kept _ ?_).trans first.2.1, first.2.2⟩ (ih found distinct)
      obtain ⟨holder, holder_found, rfl⟩ := map_eq_some_iff.mp found
      grind

theorem assignIn {vals : List (Named Int)}
    (held : List.Forall₂ (List.Forall₂ (HoldsName unit state)) scopes vals)
    (found : (scopes.findSome? fun scope => scope.get? name) = some value)
    (distinct : (scopes.flatten.map fun entry => entry.2.register).Nodup) :
    List.Forall₂ (List.Forall₂ (HoldsName unit after)) scopes (assignIn name num vals) := by
  induction held with
  | nil => cases found
  | @cons scope own scopes vals first rest ih =>
    rw [flatten_cons, map_append, nodup_append] at distinct
    obtain ⟨distinct_scope, distinct_rest, apart⟩ := distinct
    rw [List.findSome?_cons] at found
    rw [Backend65816.assignIn, has_eq]
    rcases get? first name with ⟨scope_none, own_none⟩ | ⟨_, _, scope_some, own_some, _⟩
    · rw [scope_none] at found
      rw [own_none]
      refine .cons (of_kept_scope first fun entry mem => kept _ fun equal => ?_)
        (ih found distinct_rest)
      obtain ⟨holder, holder_mem, holder_found⟩ := exists_of_findSome?_eq_some found
      obtain ⟨entry', entry_found, rfl⟩ := map_eq_some_iff.mp holder_found
      exact apart _ (mem_map_of_mem mem) _ (mem_map.mpr ⟨entry',
        mem_flatten.mpr ⟨holder, holder_mem, mem_of_find?_eq_some entry_found⟩, rfl⟩)
        equal
    · rw [scope_some] at found
      cases found
      rw [own_some]
      refine .cons (put_self content holds kept first scope_some distinct_scope)
        (forall₂_imp_of_mem rest fun scope' scope_mem _ held =>
          of_kept_scope held fun entry mem => kept _ fun equal => ?_)
      obtain ⟨holder, holder_found, rfl⟩ := map_eq_some_iff.mp scope_some
      exact apart _ (mem_map_of_mem (mem_of_find?_eq_some holder_found)) _
        (mem_map.mpr ⟨entry, mem_flatten.mpr ⟨scope', scope_mem, mem⟩, rfl⟩)
        equal.symm

end

theorem assign (agrees : Agrees unit draft.scopes env state) (wf : draft.WellFormed unit)
    (found : draft.find? name = some value) {width : Width}
    (width_eq : unit.width? value.type = some width) (holds : unit.Holds value.type num)
    (fuel : Nat) :
    Agrees unit draft.scopes (Eval.assign name num fuel env).2
      (state.write width value.register num) := by
  obtain ⟨holder, holder_mem, holder_found⟩ := exists_of_findSome?_eq_some found
  obtain ⟨entry, entry_found, entry_eq⟩ := map_eq_some_iff.mp holder_found
  have typed := wf.locals holder_mem (mem_of_find?_eq_some entry_found)
  rw [entry_eq] at typed
  have content : (state.write width value.register num).registers value.register = num := by
    rw [write_self]
    rw [CompilationUnit.Holds, CompilationUnit.widthOf, width_eq] at holds
    exact holds
  exact {
    scopes := assignIn content holds (fun reg other => write_of_ne _ other) agrees.scopes found
      (wf.distinct.sublist (sublist_append_left _ _))
    memory := agrees.memory
    zero := by
      rw [write_of_ne _ (Ne.symm typed.1)]
      exact agrees.zero }

theorem write (agrees : Agrees unit scopes env state)
    (unnamed : ∀ scope ∈ scopes, ∀ entry ∈ scope, entry.2.register ≠ target) (nonzero : target ≠ 0)
    (width : Width) (num : Int) : Agrees unit scopes env (state.write width target num) where
  scopes := by
    refine forall₂_imp_of_mem agrees.scopes fun scope scope_mem vals held => ?_
    refine forall₂_imp_of_mem held fun entry entry_mem value held => ?_
    have other := unnamed scope scope_mem entry entry_mem
    exact ⟨held.1, (write_of_ne _ other).trans held.2.1, held.2.2⟩
  memory := agrees.memory
  zero := (write_of_ne _ (Ne.symm nonzero)).trans agrees.zero

theorem write_new (agrees : Agrees unit draft.scopes env state) (wf : draft.WellFormed unit)
    (new : draft.vregs.size ≤ target) (width : Width) (num : Int) :
    Agrees unit draft.scopes env (state.write width target num) := by
  have vregs_pos := wf.vregs_pos
  refine agrees.write ?_ (Nat.ne_of_gt (Nat.lt_of_lt_of_le vregs_pos new)) width num
  intro scope scope_mem entry entry_mem
  exact Nat.ne_of_lt (Nat.lt_of_lt_of_le (wf.locals scope_mem entry_mem).lt_size new)

theorem store (agrees : Agrees unit scopes env state) (addr : Address) (num : Int) (fuel : Nat) :
    Agrees unit scopes (Eval.store addr num fuel env).2
      { state with memory := Function.update state.memory addr num } where
  scopes := agrees.scopes
  memory := congrArg (Function.update · addr num) agrees.memory
  zero := agrees.zero

end Agrees

end Backend65816
