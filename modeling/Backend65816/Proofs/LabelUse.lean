import Backend65816.Proofs.BranchReach
import Backend65816.Proofs.ScratchContract

/-!
# Labels in compiled code

Cleanup keeps the labels that tables hold and, as long as a name has no sign and no bank mark of its
own, those that operands refer to. The labels of a compiled function are distinct: selection takes
each from the blocks still due or from its counter, cleanup only drops some, and branches are
lengthened with labels that are free. Branches and tables lead to labels that are there.
-/

namespace Backend65816

open List Routine

variable {routine resolved : Routine} {tables : List DataTable}

/-! ## Cleanup -/

theorem definedLabels_filter_isKept (used : Std.HashSet String) (code : List Instr) :
    definedLabels (code.filter (Instr.isKept used)) = (definedLabels code).filter used.contains := by
  rw [definedLabels, definedLabels, filterMap_filter, filter_filterMap]
  congr 1
  funext instr
  cases instr with
  | run op => rfl
  | label name => grind [Instr.isKept, Instr.label?]

/-- The symbol is the label, with or without a bank mark in front and an offset behind it. -/
def RefersTo (symbol label : String) : Prop :=
  ∃ mark offset, symbol.toList = mark ++ label.toList ++ offset ∧ (mark = [] ∨ mark = ['^']) ∧
    offset.head?.all isSign = true

/-- No character of the name is an operator of symbolic operands. -/
def IsPlainLabel (name : String) : Prop :=
  name ≠ "" ∧ ∀ character ∈ name.toList, character ≠ '^' ∧ isSign character = false

theorem symbolBase_of_refersTo {symbol name : String} (refers : RefersTo symbol name)
    (plain : IsPlainLabel name) : symbol ≠ "" ∧ symbolBase symbol = name := by
  obtain ⟨mark, offset, symbol_eq, marked, signed⟩ := refers
  obtain ⟨nonempty, free⟩ := plain
  obtain ⟨first, rest, name_eq⟩ := exists_cons_of_ne_nil fun empty =>
    nonempty (String.toList_eq_nil_iff.mp empty)
  rw [name_eq] at symbol_eq free
  have unmarked : Text.dropLead ['^'] symbol.toList = first :: (rest ++ offset) := by
    have unlike := (free first (.head _)).1.symm
    rcases marked with rfl | rfl <;> simp_all [Text.dropLead]
  have cut : (rest ++ offset).takeWhile (fun character => !isSign character) = rest := by
    rw [takeWhile_append_of_pos fun character mem => by simp [(free character (.tail _ mem)).2]]
    cases offset <;> simp_all
  refine ⟨by rintro rfl; simp at symbol_eq, ?_⟩
  simp only [symbolBase, unmarked, (free first (.head _)).2, cut, ← name_eq]
  simp

/-- Instructions other than labels stay, in order, and so do labels in use: those in tables and, of
plain names, those that operands refer to. -/
theorem Routine.dropUnusedLabels_keeps (routine : Routine) (tables : List DataTable) :
    let cleaned := routine.dropUnusedLabels tables
    cleaned.code.filter (·.label?.isNone) = routine.code.filter (·.label?.isNone) ∧
      ∀ name ∈ definedLabels routine.code,
        (∃ table ∈ tables, name ∈ table.targets) ∨ IsPlainLabel name ∧
            (∃ operation, .run operation ∈ routine.code ∧ RefersTo operation.symbol name) →
          name ∈ definedLabels cleaned.code := by
  intro cleaned
  constructor
  · refine (filter_filter ..).trans (filter_congr fun instr _ => ?_)
    cases instr <;> rfl
  · intro name defined used
    refine definedLabels_filter_isKept _ _ ▸ mem_filter.mpr ⟨defined, ?_⟩
    rw [labelsInUse, Std.HashSet.contains_ofList, contains_iff_mem]
    rcases used with ⟨table, mem, held⟩ | ⟨plain, op, mem, refers⟩
    · exact mem_append_right _ (mem_flatMap.mpr ⟨table, mem, held⟩)
    · obtain ⟨symbolic, base⟩ := symbolBase_of_refersTo refers plain
      exact mem_append_left _ (mem_filterMap.mpr ⟨_, mem, by simp [Instr.referredLabel?, *]⟩)

/-- The reference to a label with a sign in its name is not seen. -/
theorem Routine.dropUnusedLabels_loses :
    (dropUnusedLabels { code := [.branch .bne "a-b_L1", .label "a-b_L1"] } []).code =
      [.branch .bne "a-b_L1"] := by
  rw [dropUnusedLabels_eq]
  decide

/-! ## Compiled functions -/

/-- No label is defined twice, and branches and tables lead to labels that are. -/
structure Routine.LabelsOnce (routine : Routine) (tables : List DataTable) : Prop where
  distinct : (definedLabels routine.code).Nodup
  branches : ∀ operation, .run operation ∈ routine.code → operation.op.isBranch = true →
    (definedLabels routine.code).count operation.symbol = 1
  targets : ∀ table ∈ tables, ∀ target ∈ table.targets,
    (definedLabels routine.code).count target = 1

/-- Lengthening branches keeps labels distinct. -/
theorem Routine.labelsOnce_of_resolves (resolves : routine.resolveBranches = .ok resolved)
    (distinct : (definedLabels routine.code).Nodup)
    (listed : ∀ table ∈ tables, ∀ target ∈ table.targets, target ∈ definedLabels routine.code) :
    resolved.LabelsOnce tables := by
  obtain ⟨skips, lengthened⟩ := resolveBranches_lengthened resolves
  have perm := lengthened.expands.definedLabels_perm
  have once : (definedLabels resolved.code).Nodup :=
    perm.nodup_iff.mpr (lengthened.distinct.append distinct lengthened.apart)
  refine ⟨once, fun op mem branch => ?_, fun table mem target held => ?_⟩
  · exact count_eq_one_of_mem once (lengthened.symbol_defined mem branch)
  · exact count_eq_one_of_mem once
      (perm.symm.subset (mem_append_right _ (listed table mem target held)))

theorem Graph.select_labels {graph : Graph} {allocation : Allocation} {signature : Signature}
    {settings : Settings} {selected : SelectedCode} (nonempty : graph.blocks ≠ #[])
    (same_mode : signature.mode = graph.mode)
    (inside : ∀ id, ∀ next ∈ graph.successors id, next < graph.blocks.size)
    (selects : graph.select allocation signature settings = .ok selected) :
    (definedLabels selected.routine.code).Nodup ∧ ∀ table ∈ selected.tables,
      ∀ target ∈ table.targets, target ∈ definedLabels selected.routine.code := by
  obtain ⟨final, outcome, code_eq, jumps⟩ := select_ok selects
  let context := graph.selecting allocation signature settings
  have modes : final.InModes context (context.body none) [] none :=
    Select.function_inModes same_mode rfl nonempty (.inl rfl) _ _ outcome
  rw [code_eq, definedLabels_filter_isKept]
  refine ⟨modes.2.distinct.filter _, fun table mem target held => mem_filter.mpr ⟨?_, ?_⟩⟩
  · obtain ⟨block, listed, id, edge, rfl⟩ :=
      modes.2.targets table (jumps table mem target held) target held
    obtain ⟨place, at_place⟩ := Array.mem_iff_getElem?.mp listed
    have next : id ∈ graph.successors place := by
      change graph.blocks[place]? = some block at at_place
      rwa [successors, at_place]
    exact modes.2.blocks id (inside place id next)
  · rw [labelsInUse, Std.HashSet.contains_ofList, contains_iff_mem]
    exact mem_append_right _ (mem_flatMap.mpr ⟨table, jumps table mem target held, held⟩)

theorem CompiledFunction.MadeFrom.labelsOnce {function : CompiledFunction} {context : UnitContext}
    {job : Job} (made : function.MadeFrom context job) :
    function.routine.LabelsOnce function.tables := by
  obtain ⟨_, -, compiled⟩ := exists_of_bind_eq_ok made.compiled
  obtain ⟨lowered, lowers, compiled⟩ := exists_of_bind_eq_ok compiled
  obtain ⟨selected, selects, compiled⟩ := exists_of_bind_eq_ok compiled
  obtain ⟨routine, resolves, compiled⟩ := exists_of_bind_eq_ok compiled
  obtain ⟨_, -, compiled⟩ := exists_of_bind_eq_ok compiled
  cases compiled
  obtain ⟨draft, -, rfl⟩ := UnitContext.lower_ok (eq_ok_of_mapError lowers)
  obtain ⟨distinct, listed⟩ := Graph.select_labels
    (fun empty => cons_ne_nil _ _ (congrArg Array.toList empty)) rfl
    (fun _ _ => Graph.successors_reorder_lt) (eq_ok_of_mapError selects)
  exact Routine.labelsOnce_of_resolves (eq_ok_of_mapError resolves) distinct listed

/-- In every function that a unit is compiled to, each label is defined once, and so are the targets
of branches and of jump tables. The routine for missing methods is no exception. -/
theorem CompilationUnit.compile_labelsOnce (unit : CompilationUnit) (settings : Settings)
    (calledOff : Bool) (compilation : Compilation)
    (compiles : unit.compile settings calledOff = .ok compilation) :
    (∀ function ∈ compilation.functions, function.routine.LabelsOnce function.tables) ∧
      ∀ routine ∈ compilation.program.routines, routine.LabelsOnce [] := by
  obtain ⟨_, _, -, made⟩ := compile_ok compiles
  have functions (fn) (mem : fn ∈ compilation.functions) : fn.routine.LabelsOnce fn.tables := by
    obtain ⟨job, -, made⟩ := made.functions fn mem
    exact made.labelsOnce
  refine ⟨functions, fun routine listed => ?_⟩
  rcases made.routines routine listed with ⟨fn, mem, rfl⟩ | resolves
  · exact ⟨(functions fn mem).distinct, (functions fn mem).branches, forall_mem_nil _⟩
  · exact labelsOnce_of_resolves resolves (nodup_singleton _) (forall_mem_nil _)

/-- A call, and then a loop that does not end. -/
def spinning : CompilationUnit where
  functions := [{ name := "spin", preserve := ["scratch"]
                  body := .mk [.expr (.call "spin" []), .loop "" default] none }]

def spinGraph : Graph where
  name := "spin"
  blocks := #[
    { name := "entry"
      actions := [.call { function := "spin", preservesScratch := true }]
      terminator := some (.jump 1) },
    { name := "loop", terminator := some (.jump 1) }]
  vregs := #[{}]

theorem spinGraph_allocate : spinGraph.allocate ⟨16, false⟩ = { locations := #[.nowhere] } := by
  have solved := @AllocationProblem.solve_eq (.ofGraph spinGraph ⟨16, false⟩) #[none] [] (by decide)
    (by decide) (by with_unfolding_all decide) (by decide)
  exact solved.trans (by with_unfolding_all decide)

theorem spinning_labelsOnce : ∃ compilation, spinning.compile .standard false = .ok compilation ∧
    ∃ function ∈ compilation.functions, function.routine.LabelsOnce function.tables := by
  let job : Job := ⟨"spin", spinning.functions.headD {}, { name := "spin", preserveScratch := true }⟩
  let context : UnitContext :=
    ⟨spinning, spinning.resolve.signatures, { tags := { limit := 255 } }, .standard⟩
  obtain ⟨spin, compiles, -⟩ := @Job.exists_compile job context spinGraph _ _ rfl
    (by decide +kernel) (by decide +kernel) spinGraph_allocate (by decide) rfl rfl
    (undefinedTarget_eq_none_iff.mpr (by rw [dropUnusedLabels_eq]; decide +kernel))
    (by rw [dropUnusedLabels_eq]; decide +kernel)
  have compiled : compileJobs context spinning.resolve.jobs = .ok { functions := [spin] } := by
    rw [show spinning.resolve.jobs = [job] from rfl, compileJobs, compiles]
    rfl
  obtain ⟨compilation, compiles, functions_eq⟩ :=
    @CompilationUnit.exists_compile spinning .standard context.plan _ _ rfl compiled
  exact ⟨compilation, compiles, spin, functions_eq ▸ .head _,
    (spinning.compile_labelsOnce _ _ _ compiles).1 spin (functions_eq ▸ .head _)⟩

end Backend65816
