import Mathlib.Tactic.Common
import Backend65816.Convention.Resolve

/-!
# Resolved conventions

Parameters and return values are resolved one after the other: each has the width of its type and
the place of its binding, and the layout of the stack changes offsets only. A convention that was
resolved is consistent: the rest of the compiler relies on it without checks.
-/

namespace Backend65816

open List ParamSlot

namespace CompilationUnit

variable (unit : CompilationUnit)

/-- Where a value is that is not on the stack. -/
def boundLoc : Binding → Loc
  | .stack => .nowhere
  | .register name => ((Reg.ofName? name).map Loc.reg).getD .nowhere
  | .symbol name => unit.variableLoc name

/-- A parameter before the stack is laid out. -/
def paramSlot (param : Param) : ParamSlot where
  name := param.name
  type := param.type
  width := (unit.width? param.type).getD .none
  place := match param.binding with
    | .stack => .stack 0
    | binding => .bound (unit.boundLoc binding)

def returnSlot (result : ReturnDecl) : ReturnSlot where
  type := result.type
  width := (unit.width? result.type).getD .none
  location := unit.boundLoc result.binding

/-- A parameter has a type that can be passed, and that fills an index register. -/
def Passes (param : Param) : Prop :=
  ∃ width, unit.width? param.type = some width ∧
    (unit.boundLoc param.binding = .reg .y → width = .word)

theorem variableLoc_ne_reg (name : String) (reg : Reg) : unit.variableLoc name ≠ .reg reg := by
  unfold variableLoc
  split <;> exact nofun

end CompilationUnit

/-- The byte above the lowest argument belongs to the parameter. -/
def ParamSlot.Covers (param : ParamSlot) (byte : Nat) : Prop :=
  ∃ offset, param.place = .stack offset ∧ offset ≤ byte ∧ byte < offset + param.width.bytes

def ParamSlot.held (param : ParamSlot) : Loc × Width := (param.location, param.width)

def ReturnSlot.held (slot : ReturnSlot) : Loc × Width := (slot.location, slot.width)

def ParamSlot.onStack (param : ParamSlot) : Bool :=
  match param.place with
  | .stack _ => true
  | .bound _ => false

theorem ParamSlot.held_offset (param : ParamSlot) (offset old : Nat)
    (at_stack : param.place = .stack old) :
    { param with place := .stack offset }.held = param.held := by
  simp [held, location, at_stack]

/-- The parameters and the return values of a convention have the widths of their types. -/
structure Signature.Sized (signature : Signature) (unit : CompilationUnit) : Prop where
  params : ∀ param ∈ signature.params, unit.width? param.type = some param.width
  returns : ∀ slot ∈ signature.returns, unit.width? slot.type = some slot.width

section Outcomes

variable {ε α β : Type} {first : Except ε α}

theorem exists_of_bind_eq_ok {next : α → Except ε β} {value : β}
    (bound : first >>= next = .ok value) : ∃ mid, first = .ok mid ∧ next mid = .ok value := by
  cases first with
  | error prob => cases bound
  | ok mid => exact ⟨mid, rfl, bound⟩

variable {step : β → α → Except ε β} {items : List α} {state final : β}

/-- What each step keeps holds after all items. -/
theorem foldlM_induction (holds : List α → β → Prop)
    (keeps : ∀ {done : List α} {state : β} {item : α} {next : β}, holds done state →
      step state item = .ok next → holds (done ++ [item]) next)
    (initial : holds [] state) (folded : items.foldlM step state = .ok final) :
    holds items final := by
  suffices general : ∀ done, holds done state → holds (done ++ items) final from general [] initial
  clear initial
  induction items generalizing state with
  | nil =>
    cases folded
    simp
  | cons item rest ih =>
    rw [foldlM_cons] at folded
    obtain ⟨next, stepped, folded⟩ := exists_of_bind_eq_ok folded
    grind

theorem foldlM_invariant (holds : β → Prop)
    (keeps : ∀ {state : β} {item : α} {next : β}, holds state → step state item = .ok next →
      holds next)
    (initial : holds state) (folded : items.foldlM step state = .ok final) : holds final :=
  foldlM_induction (fun _ => holds) keeps initial folded

theorem foldlM_appends {γ : Type} {out : β → List γ} {made : α → γ} {valid : α → Prop}
    (folded : items.foldlM step state = .ok final)
    (appends : ∀ state item next, step state item = .ok next →
      valid item ∧ out next = out state ++ [made item]) :
    (∀ item ∈ items, valid item) ∧ out final = out state ++ items.map made := by
  refine foldlM_induction (fun done reached =>
    (∀ item ∈ done, valid item) ∧ out reached = out state ++ done.map made) ?_
    ⟨forall_mem_nil _, (append_nil _).symm⟩ folded
  grind

end Outcomes

namespace Resolve

variable {unit : CompilationUnit} {signature : Signature}

/-- Attributes leave the other parts of a convention as they are. -/
theorem attributes_ok {fn : FunctionDecl} {attributed : Signature}
    (called : signature.interrupt = none) (given : attributes signature fn = .ok attributed) :
    ∃ preserve preserveScratch dataBank interrupt,
      attributed = { signature with preserve, preserveScratch, dataBank, interrupt } ∧
        (interrupt.isSome = true → preserve = .full ∧ preserveScratch = true) := by
  obtain ⟨preserving, preserved, given⟩ := exists_of_bind_eq_ok given
  obtain ⟨banked, banks, given⟩ := exists_of_bind_eq_ok given
  obtain ⟨preserve, preserveScratch, rfl⟩ : ∃ preserve preserveScratch,
      preserving = { signature with preserve, preserveScratch } := by
    refine foldlM_invariant (fun state : Signature => ∃ preserve preserveScratch,
      state = { signature with preserve, preserveScratch }) ?_ ⟨_, _, rfl⟩ preserved
    rintro state item next ⟨preserve, preserveScratch, rfl⟩ added
    unfold addPreserved at added
    grind
  obtain ⟨dataBank, rfl⟩ : ∃ dataBank,
      banked = { signature with preserve, preserveScratch, dataBank } := by
    unfold setDataBank at banks
    grind
  unfold setInterrupt at given
  grind

/-- Values in the accumulator have its width, values in its high half have half of it, and values in
an index register have 16 bits. -/
structure Fits (mode : Mode) (width : Width) (register : Reg) : Prop where
  accumulator : register = .a → width = mode.width
  half : register = .b → width = .byte ∧ mode = .narrow
  index : register.isIndex = true → width = .word

/-- Values of the widths given share no register, and fit the registers that they use. -/
structure Binds (mode : Mode) (used : RegMask) (places : List (Loc × Width)) : Prop where
  fits : ∀ place ∈ places, ∀ reg, place.1 = .reg reg → used.has reg ∧ Fits mode place.2 reg
  apart : places.Pairwise fun first second => ∀ reg, first.1 = .reg reg → second.1 ≠ .reg reg

/-- A value takes its place. -/
structure Takes (mode : Mode) (used next : RegMask) (place : Loc × Width) : Prop where
  kept : ∀ reg, used.has reg → next.has reg
  taken : ∀ reg, place.1 = .reg reg → used.has reg = false ∧ next.has reg ∧ Fits mode place.2 reg

section

variable {mode : Mode} {used next : RegMask} {place : Loc × Width} {places : List (Loc × Width)}

theorem Binds.weaken (binds : Binds mode used places) : Binds mode .full places :=
  ⟨fun place mem reg same => ⟨by cases reg <;> rfl, (binds.fits place mem reg same).2⟩, binds.apart⟩

theorem Takes.of_ne (apart : ∀ reg, place.1 ≠ .reg reg) : Takes mode used used place :=
  ⟨fun _ => id, fun reg same => absurd same (apart reg)⟩

theorem Binds.take (binds : Binds mode used places) (takes : Takes mode used next place) :
    Binds mode next (places ++ [place]) := by
  obtain ⟨fits, apart⟩ := binds
  obtain ⟨kept, taken⟩ := takes
  constructor <;> grind

theorem register_ok {subject name : String} {width : Width} {found : Reg}
    (bound : register signature subject name width used = .ok found) :
    Reg.ofName? name = some found ∧
      Takes signature.mode used (used.insert found) (.reg found, width) := by
  have ⟨named, free, fits⟩ : Reg.ofName? name = some found ∧ used.has found = false ∧
      Fits signature.mode width found := by
    unfold Resolve.register at bound
    dsimp only at bound
    repeat' split at bound
    all_goals cases bound
    all_goals refine ⟨by assumption, by simp_all, ?_, ?_, ?_⟩ <;> simp_all [Reg.isIndex]
    cases mode_eq : signature.mode <;> simp_all
  refine ⟨named, fun reg used => ?_, fun reg same => ?_⟩
  · cases reg <;> simp_all [RegMask.insert, RegMask.union, RegMask.has]
  · cases same
    refine ⟨free, ?_, fits⟩
    cases found <;> simp [RegMask.insert, RegMask.union, RegMask.single, RegMask.has]

end

/-- Parameters share no register, and those on the stack come first. -/
structure ParamState.Placed (state : ParamState) (mode : Mode) : Prop where
  binds : Binds mode state.used (state.params.map held)
  order : state.params.Pairwise fun first second => second.onStack = true → first.onStack = true
  unbound : state.seenBound = false → ∀ param ∈ state.params, param.onStack = true

theorem addParam_ok {state next : ParamState} {param : Param}
    (added : addParam unit signature state param = .ok next) :
    (unit.Passes param ∧ next.params = state.params ++ [unit.paramSlot param]) ∧
      Takes signature.mode state.used next.used (unit.paramSlot param).held ∧
      ((unit.paramSlot param).onStack = true → state.seenBound = false) ∧
      (next.seenBound = false →
        state.seenBound = false ∧ (unit.paramSlot param).onStack = true) := by
  unfold addParam at added
  unfold CompilationUnit.paramSlot CompilationUnit.Passes
  split at added
  · cases added
  · next width width_eq =>
    split at added <;> rename_i binding_eq
    · split at added
      · cases added
      · cases added
        simp_all [CompilationUnit.boundLoc, Takes.of_ne, location, onStack,
          held]
    · obtain ⟨register, bound, added⟩ := exists_of_bind_eq_ok added
      obtain ⟨named, takes⟩ := register_ok bound
      cases added
      simp_all [CompilationUnit.boundLoc, location, onStack, held]
      exact fun is_y => (takes.taken _ rfl).2.2.index (is_y ▸ rfl)
    · cases added
      have apart := unit.variableLoc_ne_reg
      simp_all [CompilationUnit.boundLoc, Takes.of_ne, location, onStack,
          held]

theorem addReturn_ok {state next : ReturnState} {res : ReturnDecl}
    (added : addReturn unit signature state res = .ok next) :
    (((unit.width? res.type).isSome = true ∧ ((∃ reg, unit.boundLoc res.binding = .reg reg) ∨
          ∃ name, unit.boundLoc res.binding = unit.variableLoc name) ∧
          ∀ reg, unit.boundLoc res.binding = .reg reg → signature.preserve.has reg = false) ∧
        next.returns = state.returns ++ [unit.returnSlot res]) ∧
      Takes signature.mode state.used next.used (unit.returnSlot res).held := by
  unfold addReturn at added
  unfold CompilationUnit.returnSlot
  split at added
  · cases added
  · next width width_eq =>
    split at added <;> rename_i binding_eq
    · cases added
    · obtain ⟨found, bound, added⟩ := exists_of_bind_eq_ok added
      obtain ⟨named, takes⟩ := register_ok bound
      split at added
      · cases added
      · cases added
        simp_all [CompilationUnit.boundLoc, ReturnSlot.held]
    · cases added
      have apart := unit.variableLoc_ne_reg
      simp_all [CompilationUnit.boundLoc, Takes.of_ne, ReturnSlot.held]

theorem params_placed {params : List Param} {final : ParamState}
    (folded : params.foldlM (addParam unit signature) {} = .ok final) :
    final.Placed signature.mode := by
  refine foldlM_invariant (ParamState.Placed · signature.mode)
    (fun {state param next} placed added => ?_)
    ⟨⟨forall_mem_nil _, .nil⟩, .nil, fun _ => forall_mem_nil _⟩ folded
  obtain ⟨binds, order, unbound⟩ := placed
  obtain ⟨⟨-, next_eq⟩, takes, free, bound⟩ := addParam_ok added
  constructor
  · rw [next_eq, map_append]
    exact binds.take takes
  · grind
  · grind

theorem returns_bind {results : List ReturnDecl} {final : ReturnState}
    (folded : results.foldlM (addReturn unit signature) {} = .ok final) :
    Binds signature.mode final.used (final.returns.map ReturnSlot.held) := by
  refine foldlM_invariant (fun state => Binds signature.mode state.used
    (state.returns.map ReturnSlot.held)) (fun binds added => ?_) ⟨forall_mem_nil _, .nil⟩ folded
  obtain ⟨⟨-, next_eq⟩, takes⟩ := addReturn_ok added
  rw [next_eq, map_append]
  exact binds.take takes

/-- Layout changes offsets only. -/
theorem map_layoutStack {α : Type} {view : ParamSlot → α}
    (same : ∀ param offset old, param.place = .stack old →
      view { param with place := .stack offset } = view param) (params : List ParamSlot) :
    (layoutStack params).1.map view = params.map view := by
  induction params with
  | nil => rfl
  | cons param rest ih =>
    cases place_eq : param.place with
    | stack old => simp [layoutStack, place_eq, ih, same param _ old place_eq]
    | bound loc => simp [layoutStack, place_eq, ih]

theorem layoutStack_covers {params : List ParamSlot} :
    (∀ byte, (∃ param ∈ (layoutStack params).1, param.Covers byte) ↔
        byte < (layoutStack params).2) ∧
      (layoutStack params).1.Pairwise fun param other =>
        ∀ high byte, param.place = .stack high → other.Covers byte → byte < high := by
  induction params with
  | nil => simp [layoutStack]
  | cons param rest ih =>
    obtain ⟨covers, apart⟩ := ih
    cases place_eq : param.place with
    | stack offset =>
      have own : ∀ byte, { param with place := .stack (layoutStack rest).2 }.Covers byte ↔
          (layoutStack rest).2 ≤ byte ∧ byte < (layoutStack rest).2 + param.width.bytes := by
        simp [ParamSlot.Covers]
      simp only [layoutStack, place_eq, mem_cons, exists_eq_or_imp, own, covers, pairwise_cons]
      refine ⟨fun byte => by omega, fun other mem high byte same covered => ?_, apart⟩
      cases same
      exact (covers byte).mp ⟨other, mem, covered⟩
    | bound loc =>
      simp only [layoutStack, place_eq, mem_cons, exists_eq_or_imp, covers, pairwise_cons]
      refine ⟨fun byte => or_iff_right ?_, nofun, apart⟩
      rintro ⟨offset, placed, -⟩
      cases place_eq.symm.trans placed

end Resolve

namespace FunctionDecl

variable {fn : FunctionDecl} {symbol : String} {unit : CompilationUnit}
  {sig : Signature}

open Resolve in
theorem resolve_ok (resolved : fn.resolve symbol unit = .ok sig) : ∃ attributed params returns,
      fn.params.foldlM (addParam unit attributed) {} = .ok params ∧
      fn.returns.foldlM (addReturn unit attributed) {} = .ok returns ∧
      sig = { attributed with
        params := (layoutStack params.params).1
        returns := returns.returns
        stackBytes := (layoutStack params.params).2 } ∧
      (attributed.mode = .wide → attributed.preserve.has .b → returns.used.has .a = false) ∧
      ((attributed.interrupt.isSome → fn.params = [] ∧ fn.returns = []) ∧
        fn.returns.length ≤ maxReturns) ∧
      attributes
        { name := symbol, mode := inferMode unit fn, bank := fn.bank,
          far := fn.far, noReturn := fn.noReturn } fn = .ok attributed := by
  unfold FunctionDecl.resolve at resolved
  simp only [bind, Except.bind] at resolved
  repeat' split at resolved
  all_goals cases resolved
  all_goals refine ⟨_, _, _, by assumption, by assumption, rfl, ?_, ⟨?_, Nat.not_lt.mp ?_⟩,
      by assumption⟩ <;> simp_all

open Resolve in
/-- A convention is read off the declaration. -/
theorem resolve_slots (resolved : fn.resolve symbol unit = .ok sig) :
    sig.mode = inferMode unit fn ∧ sig.far = fn.far ∧
      (sig.params, sig.stackBytes) = layoutStack (fn.params.map unit.paramSlot) ∧
      sig.returns = fn.returns.map unit.returnSlot ∧
      (∀ param ∈ fn.params, unit.Passes param) ∧
      ∀ res ∈ fn.returns, (unit.width? res.type).isSome = true ∧
        ((∃ reg, unit.boundLoc res.binding = .reg reg) ∨
          ∃ name, unit.boundLoc res.binding = unit.variableLoc name) ∧
        ∀ reg, unit.boundLoc res.binding = .reg reg → sig.preserve.has reg = false := by
  obtain ⟨attributed, params, returns, params_ok, returns_ok, rfl, -, -, given⟩ :=
    resolve_ok resolved
  obtain ⟨_, _, _, _, rfl, -⟩ := attributes_ok rfl given
  obtain ⟨params_sized, params_eq⟩ := foldlM_appends params_ok
    fun _ _ _ added => (addParam_ok added).1
  obtain ⟨returns_sized, returns_eq⟩ := foldlM_appends returns_ok
    fun _ _ _ added => (addReturn_ok added).1
  exact ⟨rfl, rfl, congrArg layoutStack params_eq, returns_eq, params_sized, returns_sized⟩

open Resolve in
theorem resolve_view {α : Type} (resolved : fn.resolve symbol unit = .ok sig)
    (view : ParamSlot → α) (same : ∀ param offset old, param.place = .stack old →
      view { param with place := .stack offset } = view param) :
    sig.params.map view = fn.params.map (view ∘ unit.paramSlot) := by
  obtain ⟨-, -, params_eq, -⟩ := resolve_slots resolved
  rw [show sig.params = _ from congrArg Prod.fst params_eq, map_layoutStack same, map_map]

open Resolve in
theorem resolve_sized (resolved : fn.resolve symbol unit = .ok sig) : sig.Sized unit := by
  obtain ⟨-, -, -, returns_eq, params_sized, returns_sized⟩ := resolve_slots resolved
  have known {type : Ty} (sized : (unit.width? type).isSome = true) :
      unit.width? type = some ((unit.width? type).getD .none) := by
    grind [Option.getD_of_ne_none]
  constructor
  · intro param mem
    have viewed := mem_map_of_mem (f := fun param => (param.type, param.width)) mem
    rw [resolve_view resolved _ fun _ _ _ _ => rfl] at viewed
    obtain ⟨declared, declared_mem, same⟩ := mem_map.mp viewed
    obtain ⟨type_eq, width_eq⟩ := Prod.mk.inj same
    rw [← type_eq, ← width_eq]
    obtain ⟨width, declared_eq, -⟩ := params_sized declared declared_mem
    exact known (Option.isSome_of_eq_some declared_eq)
  · intro slot mem
    rw [returns_eq] at mem
    obtain ⟨declared, declared_mem, rfl⟩ := mem_map.mp mem
    exact known (returns_sized declared declared_mem).1

open Resolve in
/-- The exit sequence of a function does not disturb its return values: they are in registers that
it does not restore. -/
theorem resolve_returns (resolved : fn.resolve symbol unit = .ok sig) :
    ∀ slot ∈ sig.returns, ∀ reg, slot.location = .reg reg →
      sig.preserve.has reg = false ∧ Fits sig.mode slot.width reg ∧
      (reg = .a → sig.mode = .wide → sig.preserve.has .b = false) ∧
      sig.interrupt = none := by
  obtain ⟨-, -, -, returns_eq, -, valid⟩ := resolve_slots resolved
  obtain ⟨attributed, params, returns, -, returns_ok, rfl, apart, ⟨handler, -⟩, -⟩ :=
    resolve_ok resolved
  intro slot mem reg same
  obtain ⟨used, fits⟩ := (returns_bind returns_ok).fits _ (mem_map_of_mem mem) reg same
  rw [returns_eq] at mem
  obtain ⟨res, res_mem, rfl⟩ := mem_map.mp mem
  refine ⟨(valid res res_mem).2.2 reg same, fits, ?_, ?_⟩
  · rintro rfl wide
    simp_all
  · by_contra handles
    rw [(handler (Option.isSome_iff_ne_none.mpr handles)).2] at res_mem
    cases res_mem

open Resolve in
theorem resolve_wide (resolved : fn.resolve symbol unit = .ok sig) (wide : sig.mode = .wide) :
    ∃ param ∈ sig.params, param.location = .reg .a ∧ param.width = .word := by
  obtain ⟨mode_eq, -⟩ := resolve_slots resolved
  have ⟨param, mem, bound⟩ : ∃ param ∈ fn.params, bindsWideAccumulator unit param = true := by
    grind [inferMode]
  have at_a : (unit.paramSlot param).location = .reg .a ∧ (unit.paramSlot param).width = .word := by
    unfold bindsWideAccumulator at bound
    split at bound <;>
      simp_all [CompilationUnit.paramSlot, CompilationUnit.boundLoc, location]
  have listed := mem_map_of_mem (f := held ∘ unit.paramSlot) mem
  rw [← resolve_view resolved _ held_offset] at listed
  simp_all [held]

end FunctionDecl

/-- Parameters and return values are in places that hold them and that no other one has, the stack
is laid out without gaps, and what an exit restores is no return value. -/
structure Signature.Consistent (signature : Signature) (unit : CompilationUnit) : Prop where
  wide : signature.mode = .wide ↔
    ∃ param ∈ signature.params, param.location = .reg .a ∧ param.width = .word
  params : Resolve.Binds signature.mode .full (signature.params.map held)
  order : signature.params.Pairwise fun first second =>
    second.onStack = true → first.onStack = true
  tiles : ∀ byte, (∃ param ∈ signature.params, param.Covers byte) ↔ byte < signature.stackBytes
  lower : signature.params.Pairwise fun first second =>
    ∀ high byte, first.place = .stack high → second.Covers byte → byte < high
  count : signature.returns.length ≤ 3
  returns : Resolve.Binds signature.mode .full (signature.returns.map ReturnSlot.held)
  bound : ∀ slot ∈ signature.returns, (∃ reg, slot.location = .reg reg) ∨
    ∃ name, slot.location = unit.variableLoc name
  preserved : ∀ slot ∈ signature.returns, ∀ reg, slot.location = .reg reg →
    signature.preserve.has reg = false ∧
      (reg = .a → signature.mode = .wide → signature.preserve.has .b = false)
  handler : signature.interrupt.isSome = true → signature.params = [] ∧ signature.returns = [] ∧
    signature.preserve = .full ∧ signature.preserveScratch = true

open Resolve in
/-- Whatever a declaration asks for, the convention it resolves to is one that callers, the function
itself and its exit can all keep. -/
theorem FunctionDecl.resolve_consistent (fn : FunctionDecl) (symbol : String)
    (unit : CompilationUnit) (sig : Signature) (resolved : fn.resolve symbol unit = .ok sig) :
    sig.Consistent unit := by
  obtain ⟨-, -, -, returns_eq, -, valid⟩ := resolve_slots resolved
  have preserved := resolve_returns resolved
  obtain ⟨attributed, params, returns, params_ok, returns_ok, rfl, -, ⟨handler, count⟩, given⟩ :=
    resolve_ok resolved
  obtain ⟨binds, order, -⟩ := params_placed params_ok
  rw [← map_layoutStack ParamSlot.held_offset] at binds
  obtain ⟨tiles, lower⟩ := layoutStack_covers
  refine ⟨?_, binds.weaken, ?_, tiles, lower, ?_, (returns_bind returns_ok).weaken, ?_,
    fun slot mem reg same => ?_, fun handles => ?_⟩
  · refine ⟨resolve_wide resolved, fun ⟨param, mem, at_a, word⟩ => ?_⟩
    have fits : param.width = attributed.mode.width :=
      (binds.fits _ (mem_map_of_mem mem) .a at_a).2.accumulator rfl
    rw [word] at fits
    cases mode_eq : attributed.mode with
    | wide => rfl
    | narrow => cases mode_eq ▸ fits
  · refine (pairwise_map (R := fun first second => second = true → first = true)).mp ?_
    rw [map_layoutStack fun _ _ _ at_stack => by simp [ParamSlot.onStack, at_stack], pairwise_map]
    exact order
  · rw [returns_eq, length_map]
    exact count
  · rw [returns_eq, forall_mem_map]
    exact fun res mem => (valid res mem).2.1
  · obtain ⟨free, -, half, -⟩ := preserved slot mem reg same
    exact ⟨free, half⟩
  · obtain ⟨_, _, _, _, rfl, promises⟩ := attributes_ok rfl given
    obtain ⟨no_params, no_returns⟩ := handler handles
    rw [no_params] at params_ok
    rw [no_returns] at returns_ok
    cases params_ok
    cases returns_ok
    exact ⟨rfl, rfl, promises handles⟩

/-- A word on the stack, one in the accumulator, and their sum in an index register. -/
def sumDecl : FunctionDecl where
  params := [{ type := .u16 }, { type := .u16, binding := .register "A" }]
  returns := [{ type := .u16, binding := .register "x" }]

theorem sumDecl_consistent :
    ∃ sig, sumDecl.resolve "sum" {} = .ok sig ∧ sig.mode = .wide ∧ sig.Consistent {} :=
  ⟨_, rfl, rfl, sumDecl.resolve_consistent _ _ _ rfl⟩

end Backend65816
