import Mathlib.Data.List.Nodup
import Backend65816.Proofs.Conventions
import Backend65816.Proofs.LoweringSteps

/-!
# Implementations of traits

An implementation is accepted if each method of its trait is implemented with the declared
parameters after the receiver and with the declared return values. The convention of a method is
read off these declarations, so a call through a table and the method that it reaches agree on where
values are.
-/

namespace Backend65816

open List CompilationUnit

variable {others params : List Param} {method : String} {unit : CompilationUnit}

namespace Named

variable {α : Type}

theorem get?_erase (entries : Named α) (name other : String) :
    (entries.erase name).get? other = if other = name then none else entries.get? other := by
  grind [erase, get?]

end Named

namespace Dispatch

/-- What a method has in common with the declaration in its trait. -/
structure Implements (given : FunctionDecl) (declared : MethodDecl) : Prop where
  name : given.name = declared.name
  far : given.far = declared.far
  receiver : given.params.head?.map Param.binding = some (.register receiverRegister)
  params : (given.params.drop 1).map (fun param => (param.binding, param.type)) =
    declared.params.map fun param => (param.binding, param.type)
  returns : given.returns = declared.returns
  index : ∀ param ∈ declared.params, param.binding ≠ .register indexRegister

section Checks

variable {impl : ImplDecl} {trait : TraitDecl} {declared : MethodDecl} {given : FunctionDecl}

theorem checkParams_ok (same : others.length = params.length)
    (checked : checkParams impl method params others = .ok ()) :
    others.map (fun param => (param.binding, param.type)) =
        params.map (fun param => (param.binding, param.type)) ∧
      ∀ param ∈ params, param.binding ≠ .register indexRegister := by
  induction params generalizing others with
  | nil => simpa using same
  | cons param rest ih =>
    cases others with
    | nil => cases same
    | cons other others =>
      unfold checkParams at checked
      grind

theorem checkReturns_ok {returns others : List ReturnDecl} (same : others.length = returns.length)
    (checked : checkReturns impl method returns others = .ok ()) : others = returns := by
  unfold checkReturns at checked
  split at checked
  · next agrees =>
    rw [List.findIdx?_eq_none_iff] at agrees
    refine ext_getElem same fun idx inside inside' => ?_
    have pair := agrees (returns[idx], others[idx])
      (mem_iff_getElem.mpr ⟨idx, by simp; omega, by simp⟩)
    simpa using pair
  · cases checked

theorem checkMethod_ok (named : given.name = declared.name)
    (checked : checkMethod impl declared given = .ok ()) : Implements given declared := by
  unfold checkMethod at checked
  repeat' split at checked
  all_goals try cases checked
  next far params returns receiver =>
    simp only [not_not] at far params returns receiver
    obtain ⟨_, params_ok, returns_ok⟩ := exists_of_bind_eq_ok checked
    obtain ⟨same, free⟩ := checkParams_ok (by simp [params]) params_ok
    exact ⟨named, far, receiver, same, checkReturns_ok returns returns_ok, free⟩

theorem checkMethods_ok {methods : List MethodDecl} {left rest : Named FunctionDecl}
    (checked : checkMethods impl methods left = .ok rest) :
    ∀ declared ∈ methods, ∃ given, left.get? declared.name = some given ∧
      checkMethod impl declared given = .ok () := by
  induction methods generalizing left with
  | nil => exact forall_mem_nil _
  | cons first others ih =>
    unfold checkMethods at checked
    split at checked
    · cases checked
    · obtain ⟨_, first_ok, checked⟩ := exists_of_bind_eq_ok checked
      grind [Named.get?_erase]

/-- Of methods with one name the last one counts. -/
theorem get?_methods (methods : List FunctionDecl) (name : String) :
    (methods.foldl (fun (named : Named FunctionDecl) method => named.put method.name method)
      []).get? name = methods.reverse.find? (·.name = name) := by
  suffices general : ∀ named : Named FunctionDecl,
      (methods.foldl (fun named method => named.put method.name method) named).get? name =
        (methods.reverse.find? (·.name = name)).or (named.get? name) by
    simpa [Named.get?] using general []
  induction methods with
  | nil => simp
  | cons method rest ih =>
    grind [Named.get?_put_self, Named.get?_put_of_ne]

/-- Each method of the trait is implemented by the last method with its name. -/
theorem checkImpl_ok (accepted : checkImpl trait impl = .ok ()) (mem : declared ∈ trait.methods) :
    ∃ given, impl.methods.reverse.find? (·.name = declared.name) = some given ∧
      Implements given declared := by
  obtain ⟨left, methods_ok, -⟩ := exists_of_bind_eq_ok accepted
  obtain ⟨given, found, checked⟩ := checkMethods_ok methods_ok declared mem
  grind [get?_methods, checkMethod_ok]

end Checks

end Dispatch

/-! ## Conventions of methods -/

namespace Resolve

/-- Where parameters are, and how wide they are. -/
def places (params : List ParamSlot) : List (Width × ParamPlace) :=
  params.map fun param => (param.width, param.place)

theorem layoutStack_places {params others : List ParamSlot} (same : places params = places others) :
    places (layoutStack params).1 = places (layoutStack others).1 ∧
      (layoutStack params).2 = (layoutStack others).2 := by
  induction params generalizing others with
  | nil =>
    rw [map_eq_nil_iff.mp same.symm]
    exact ⟨rfl, rfl⟩
  | cons param rest ih =>
    cases others with
    | nil => cases same
    | cons other others =>
      obtain ⟨name, type, width, place⟩ := param
      obtain ⟨name', type', width', place'⟩ := other
      simp only [places, map_cons, List.cons.injEq] at same
      obtain ⟨⟨rfl, rfl⟩, rest_eq⟩ := same
      obtain ⟨placed, bytes⟩ := ih rest_eq
      cases place with
      | stack =>
        exact ⟨congrArg₂ List.cons (by rw [bytes]) placed, congrArg (· + width.bytes) bytes⟩
      | bound => exact ⟨congrArg (List.cons _) placed, bytes⟩

/-- The mode and the places of parameters are read off their bindings and types. -/
theorem places_of_same
    (same : params.map (fun param => (param.binding, param.type)) =
      others.map fun param => (param.binding, param.type)) :
    places (params.map unit.paramSlot) = places (others.map unit.paramSlot) ∧
      params.any (bindsWideAccumulator unit) = others.any (bindsWideAccumulator unit) := by
  induction params generalizing others with
  | nil =>
    simp_all
  | cons param rest ih =>
    cases others with
    | nil => cases same
    | cons other others =>
      simp only [map_cons, List.cons.injEq, Prod.mk.injEq] at same
      obtain ⟨⟨binding_eq, type_eq⟩, rest_eq⟩ := same
      obtain ⟨places_eq, wide_eq⟩ := ih rest_eq
      refine ⟨congrArg₂ List.cons ?_ places_eq, ?_⟩
      all_goals simp_all [CompilationUnit.paramSlot, bindsWideAccumulator]

end Resolve

open Resolve in
theorem CompilationUnit.paramSlot_receiver {param : Param}
    (passes : unit.Passes param) (binding : param.binding = .register receiverRegister) :
    (unit.paramSlot param).width = .word ∧ (unit.paramSlot param).place = .bound (.reg .y) ∧
      bindsWideAccumulator unit param = false := by
  obtain ⟨width, width_eq, idx⟩ := passes
  have bound : unit.boundLoc param.binding = .reg .y := by
    rw [binding]
    rfl
  cases idx bound
  refine ⟨by rw [paramSlot, width_eq]; rfl, ?_, ?_⟩
  · simp only [paramSlot, binding]
    rfl
  · simp only [bindsWideAccumulator, binding]
    rfl

/-- Values pass between a caller and a function in the same way under both conventions. -/
structure Signature.PassesAs (caller callee : Signature) : Prop where
  mode : caller.mode = callee.mode
  far : caller.far = callee.far
  params : Resolve.places caller.params = Resolve.places callee.params
  stackBytes : caller.stackBytes = callee.stackBytes
  returns : caller.returns = callee.returns

theorem Lower.tableConvention_ok {table : DispatchTable} {traitName : String}
    {method : MethodDecl} {around : Surroundings} {draft after : Draft} {convention : Signature}
    (ran : tableConvention table traitName method around draft = .ok (convention, after)) :
    ∃ fn : FunctionDecl, ∃ receiver : Param,
      fn.resolve table.name around.context.unit = .ok convention ∧
        receiver.binding = .register receiverRegister ∧
        fn.params = receiver :: method.params ∧ fn.far = method.far ∧
        fn.returns = method.returns :=
  ⟨_, _, (check_ok ran).1, rfl, rfl, rfl, rfl⟩

open Resolve in
/-- A call through a table passes values as each implementation takes them. -/
theorem Lower.tableConvention_passesAs {trait : TraitDecl} {impl : ImplDecl} {method : MethodDecl}
    {given : FunctionDecl} {table : DispatchTable} {around : Surroundings} {draft after : Draft}
    {convention signature : Signature} {symbol : String}
    (accepted : Dispatch.checkImpl trait impl = .ok ())
    (distinct : (impl.methods.map FunctionDecl.name).Nodup) (declared : method ∈ trait.methods)
    (listed : given ∈ impl.methods) (named : given.name = method.name)
    (lowered : tableConvention table trait.name method around draft = .ok (convention, after))
    (resolved : given.resolve symbol around.context.unit = .ok signature) :
    convention.PassesAs signature ∧
      convention.params.head?.map ParamSlot.place = some (.bound (.reg .y)) := by
  obtain ⟨found, found_eq, implements⟩ := Dispatch.checkImpl_ok accepted declared
  have found_mem := mem_reverse.mp (mem_of_find?_eq_some found_eq)
  cases inj_on_of_nodup_map distinct listed found_mem (named.trans implements.name.symm)
  obtain ⟨function, receiver, resolves, bound, params_eq, far_eq, returns_eq⟩ :=
    tableConvention_ok lowered
  obtain ⟨self, others, given_eq⟩ : ∃ self others, given.params = self :: others := by
    cases given_eq : given.params with
    | nil => cases given_eq ▸ implements.receiver
    | cons self others => exact ⟨self, others, rfl⟩
  have self_bound : self.binding = .register receiverRegister := by
    simpa [given_eq] using implements.receiver
  have others_eq := implements.params
  rw [given_eq, drop_one, tail_cons] at others_eq
  obtain ⟨rest_places, rest_wide⟩ := places_of_same others_eq
  obtain ⟨mode, far, laid, returns, passed, -⟩ := FunctionDecl.resolve_slots resolves
  obtain ⟨mode', far', laid', returns', passed', -⟩ := FunctionDecl.resolve_slots resolved
  rw [params_eq] at laid passed
  rw [given_eq] at laid' passed'
  obtain ⟨width, place, narrow⟩ :=
    paramSlot_receiver (passed receiver mem_cons_self) bound
  obtain ⟨width', place', narrow'⟩ :=
    paramSlot_receiver (passed' self mem_cons_self) self_bound
  have same : places ((receiver :: method.params).map around.context.unit.paramSlot) =
      places ((self :: others).map around.context.unit.paramSlot) :=
    congrArg₂ List.cons (by simp only [width, place, width', place']) rest_places.symm
  obtain ⟨params, stackBytes⟩ := layoutStack_places same
  rw [← laid, ← laid'] at params stackBytes
  refine ⟨⟨?_, ?_, params, stackBytes, ?_⟩, ?_⟩
  · rw [mode, mode', inferMode, inferMode, params_eq, given_eq, any_cons, any_cons,
      narrow, narrow', rest_wide]
  · rw [far, far', far_eq, implements.far]
  · rw [returns, returns', returns_eq, implements.returns]
  · rw [show convention.params = _ from congrArg Prod.fst laid, map_cons, layoutStack, place]
    exact congrArg some place

/-- Moves things by a distance in the accumulator, up to a limit in memory. -/
def moveTrait : TraitDecl where
  name := "Move"
  methods := [
    { name := "move"
      params := [⟨"distance", .u16, .register "a"⟩, ⟨"limit", .u8, .symbol "edge"⟩]
      returns := [⟨.u16, .register "a"⟩] }]

def moveShip : ImplDecl where
  traitName := "Move"
  typeName := "Ship"
  methods := [
    { name := "move"
      bank := 3
      params := [⟨"ship", .pointer "Ship", .register "y"⟩, ⟨"by", .u16, .register "a"⟩,
        ⟨"edge", .u8, .symbol "edge"⟩]
      returns := [⟨.u16, .register "a"⟩] }]

def moveCaller : Surroundings where
  context :=
    { unit := {}, signatures := [], plan := { tags := { limit := 255 } }, settings := .standard }
  signature := { name := "main" }

theorem moveShip_passesAs : Dispatch.checkImpl moveTrait moveShip = .ok () ∧ ∃ convention signature,
      Lower.tableConvention default moveTrait.name (moveTrait.methods.headD {}) moveCaller default =
        .ok (convention, default) ∧
      (moveShip.methods.headD {}).resolve "Ship__Move__move" {} = .ok signature ∧
      convention.PassesAs signature := by
  have accepted : Dispatch.checkImpl moveTrait moveShip = .ok () := rfl
  obtain ⟨convention, lowered⟩ : ∃ convention, Lower.tableConvention default moveTrait.name
      (moveTrait.methods.headD {}) moveCaller default = .ok (convention, default) := ⟨_, rfl⟩
  obtain ⟨signature, resolved⟩ : ∃ signature,
      (moveShip.methods.headD {}).resolve "Ship__Move__move" {} = .ok signature := ⟨_, rfl⟩
  refine ⟨accepted, convention, signature, lowered, resolved, ?_⟩
  exact (Lower.tableConvention_passesAs accepted (by decide) (mem_singleton.mpr rfl)
    (mem_singleton.mpr rfl) rfl lowered resolved).1

end Backend65816
