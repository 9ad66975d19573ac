import Backend65816.Proofs.CompiledUnits
import Backend65816.Proofs.DispatchTables

/-!
# Arguments of dispatched calls

A call through a table scales the tag of the receiver in an index register. Traits that are
implemented pass nothing in that register, so the call destroys no argument.
-/

namespace Backend65816

open List CompilationUnit

theorem Reg.eq_of_ofName?_x {name : String} (named : Reg.ofName? name = some .x) :
    name = "x" ∨ name = "X" := by
  unfold Reg.ofName? at named
  split at named <;> simp_all

open Resolve in
/-- A parameter is passed in a register only if it is bound to it. -/
theorem FunctionDecl.binding_of_location {fn : FunctionDecl} {symbol : String}
    {unit : CompilationUnit} {signature : Signature}
    (resolved : fn.resolve symbol unit = .ok signature) {slot : ParamSlot}
    (mem : slot ∈ signature.params) {reg : Reg} (placed : slot.location = .reg reg) :
    ∃ param ∈ fn.params, ∃ name, param.binding = .register name ∧ Reg.ofName? name = some reg := by
  have viewed := mem_map_of_mem (f := ParamSlot.held) mem
  rw [resolve_view resolved _ ParamSlot.held_offset] at viewed
  obtain ⟨param, param_mem, same⟩ := mem_map.mp viewed
  refine ⟨param, param_mem, ?_⟩
  rw [← (Prod.mk.inj same).1, paramSlot, ParamSlot.location] at placed
  cases binding_eq : param.binding with
  | stack => simp [binding_eq] at placed
  | register name =>
    refine ⟨name, rfl, ?_⟩
    cases named : Reg.ofName? name with
    | none => simp_all [boundLoc]
    | some found => simp_all [boundLoc]
  | symbol name =>
    rw [binding_eq] at placed
    exact absurd placed (unit.variableLoc_ne_reg name reg)

/-- Traits whose names have no dot, and whose methods spell the index register in one way. -/
structure CompilationUnit.PlainMethods (unit : CompilationUnit) : Prop where
  slashes : unit.PlainTraits
  dots : ∀ trait ∈ unit.traits, '.' ∉ trait.name.toList
  registers : ∀ trait ∈ unit.traits, ∀ method ∈ trait.methods, ∀ param ∈ method.params,
    param.binding ≠ .register "X"

namespace Dispatch

variable {unit : CompilationUnit} {limit : Int} {plan : DispatchPlan} {problems : List Diagnostic}

/-- No parameter of a method is bound to the index register if its table has an entry that can be
called. -/
theorem not_index_of_table (plain : unit.PlainMethods)
    (built : build unit limit = .ok (plan, problems)) {trait : TraitDecl}
    (declared : unit.findTrait? trait.name = some trait) {method : MethodDecl}
    (listed : method ∈ trait.methods) {table : DispatchTable}
    (found : plan.table? trait.name method.name = some table) {entry : String}
    (mem : entry ∈ table.entries) (used : entry ≠ trapSymbol) :
    ∀ param ∈ method.params, param.binding ≠ .register indexRegister := by
  obtain ⟨progress, folded, -, tables_eq, -⟩ := build_ok built
  have after := Progress.after_of_build folded
  have table_mem := mem_reverse.mp (mem_of_find?_eq_some found)
  obtain ⟨other, method', list⟩ := exists_lists after plain.slashes (tables_eq ▸ table_mem)
  obtain ⟨trait_mem, -⟩ := findTrait?_mem declared
  have same : other.name = trait.name := by
    have keys := List.find?_some found
    rw [decide_eq_true_iff, ← String.toList_inj] at keys
    simp only [String.toList_append, append_assoc, list.traitName] at keys
    exact String.toList_inj.mp (append_inj_of_notMem (plain.dots other list.declared)
      (plain.dots trait trait_mem) keys).1
  obtain ⟨tag, at_tag⟩ := List.mem_iff_getElem?.mp mem
  obtain ⟨_, typeName, -, -, implemented, -⟩ := list.implemented at_tag used
  obtain ⟨impl, -, -, -, found, found_eq, settles⟩ :=
    after.settles list.declared list.fine implemented
  rw [same, declared] at found_eq
  cases found_eq
  obtain ⟨given, -, implements⟩ := checkImpl_ok settles.checked listed
  exact implements.index

end Dispatch

/-- A call through a table with an entry that can be called has no argument in the index register. -/
def Graph.SparesIndex (graph : Graph) (context : UnitContext) (signature : Signature) : Prop :=
  ∀ block ∈ graph.blocks, ∀ details, .dispatch details ∈ block.actions →
    (∃ table, details.Through context signature graph.vregs table) ∧
    ∀ table, details.Through context signature graph.vregs table →
      (∃ entry ∈ table.entries, entry ≠ trapSymbol) →
      ∀ register ∈ details.arguments, (graph.info register).fixed ≠ some (.reg .x)

/-- The tag destroys no argument of a call. -/
theorem UnitContext.lower_sparesIndex {context : UnitContext} {limit : Int}
    {problems : List Diagnostic} {signature : Signature} {body : Block} {graph : Graph}
    (plain : context.unit.PlainMethods)
    (built : Dispatch.build context.unit limit = .ok (context.plan, problems))
    (lowered : context.lower signature body = .ok graph) :
    graph.linearize.SparesIndex context signature := by
  intro block block_mem details mem
  obtain ⟨original, original_mem, original_action⟩ := Graph.exists_of_mem_linearize block_mem mem
  refine ⟨(context.lower_allows lowered original_mem original_action).exists_through, ?_⟩
  rintro table ⟨trait, method, convention, call⟩ ⟨entry, entry_mem, used⟩ register register_mem placed
  have free := Dispatch.not_index_of_table plain built call.declared call.listed call.found
    entry_mem used
  obtain ⟨-, slot, slot_mem, fixed⟩ := call.arguments register register_mem
  obtain ⟨_, _, _, resolves⟩ := call.resolved
  obtain ⟨function, receiver, resolved, receiver_eq, params_eq, -⟩ :=
    Lower.tableConvention_ok resolves
  obtain ⟨param, param_mem, name, binding_eq, named⟩ := FunctionDecl.binding_of_location resolved
    slot_mem (Option.some.inj (fixed.symm.trans placed))
  rw [params_eq] at param_mem
  obtain rfl | param_mem := mem_cons.mp param_mem
  · cases receiver_eq.symm.trans binding_eq
    cases named
  · obtain rfl | rfl := Reg.eq_of_ofName?_x named
    · exact free param param_mem binding_eq
    · exact plain.registers trait (CompilationUnit.findTrait?_mem call.declared).1 method call.listed
        param param_mem binding_eq

/-- A sprite is moved by a distance in a register. -/
def moving (register : String) : CompilationUnit where
  structs := [{ name := "Sprite", fields := [⟨"x", .u16⟩] }]
  traits := [
    { name := "Move"
      methods := [{ name := "move", params := [⟨"distance", .u16, .register register⟩] }] }]
  impls := [
    { traitName := "Move"
      typeName := "Sprite"
      methods := [
        { name := "move"
          params := [⟨"self", .pointer "Sprite", .register "y"⟩,
            ⟨"distance", .u16, .register register⟩] }] }]

def movingTable : DispatchTable where
  name := "__vt_Move_move"
  traitName := "Move"
  method := "move"
  far := false
  entries := [trapSymbol, "Sprite__Move__move"]

def movingPlan : DispatchPlan where
  tags := { limit := 255, types := ["Sprite"] }
  tables := [movingTable]
  layouts := [("Sprite", ⟨"Sprite", true, [⟨"x", .u16, .word, 1⟩], 3⟩)]
  far := [("Move", false)]

def movingContext (register : String) : UnitContext where
  unit := moving register
  signatures := (moving register).resolve.signatures
  plan := movingPlan
  settings := .standard

/-- Moves what a reference refers to. -/
def movingSignature : Signature where
  name := "push"
  params := [⟨"it", .reference "Move", .word, .bound (.reg .y)⟩]

def movingBody : Block := .mk [.expr (.method (.name "it") "Move" "move" [.int 5 .u16])] none

def movingCall : TableCall where
  table := movingTable.name
  entryWidth := 2
  object := 4
  arguments := [5]

def movingGraph (register : Reg) : Graph where
  name := "push"
  blocks := #[
    { name := "entry"
      actions := [.params [1], .move 2 1, .const 3 5, .move 4 2, .move 5 3,
        .dispatch movingCall]
      terminator := some (.giveBack []) }]
  vregs := #[{}, { name := "it", width := .word, fixed := some (.reg .y) },
    { name := "it", width := .word, hint := some .y }, { width := .word },
    { name := "self", width := .word, fixed := some (.reg .y) },
    { name := "distance", width := .word, fixed := some (.reg register) }]

theorem moving_sparesIndex :
    ∃ problems, Dispatch.build (moving "a") 255 = .ok (movingPlan, problems) ∧
      (movingContext "a").lower movingSignature movingBody = .ok (movingGraph .a) ∧
      (movingGraph .a).linearize.SparesIndex (movingContext "a") movingSignature := by
  obtain ⟨problems, built⟩ : ∃ problems,
      Dispatch.build (moving "a") 255 = .ok (movingPlan, problems) := ⟨_, rfl⟩
  have lowered : (movingContext "a").lower movingSignature movingBody = .ok (movingGraph .a) := rfl
  exact ⟨problems, built, lowered,
    UnitContext.lower_sparesIndex ⟨by decide, by decide, by decide⟩ built lowered⟩

/-- A register in capitals is not recognised as the reserved one, and the distance is lost. -/
theorem moving_overwrites_distance :
    ∃ problems, Dispatch.build (moving "X") 255 = .ok (movingPlan, problems) ∧
      (movingContext "X").lower movingSignature movingBody = .ok (movingGraph .x) ∧
      ¬(movingGraph .x).linearize.SparesIndex (movingContext "X") movingSignature := by
  refine ⟨_, rfl, rfl, fun spares => ?_⟩
  rw [show (movingGraph .x).linearize = movingGraph .x by decide +kernel] at spares
  let convention : Signature :=
    { name := movingTable.name
      params := [⟨"self", .reference "Move", .word, .bound (.reg .y)⟩,
        ⟨"distance", .u16, .word, .bound (.reg .x)⟩] }
  have through : movingCall.Through (movingContext "X") movingSignature (movingGraph .x).vregs
      movingTable :=
    ⟨(moving "X").traits.headD {}, _, convention, rfl, rfl, mem_singleton.mpr rfl, rfl,
      ⟨[], 0, {}, rfl⟩, ⟨[], 0, {}, rfl⟩,
      by simp [movingCall, movingGraph, convention, ParamSlot.location]⟩
  exact (spares _ (mem_toArray.mpr mem_cons_self) movingCall (by simp)).2 movingTable
    through ⟨"Sprite__Move__move", by decide, by decide⟩ 5 mem_cons_self rfl

end Backend65816
