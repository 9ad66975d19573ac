import Backend65816.Proofs.ScratchContract

/-!
# Access to globals

A global in another bank is marked as far when a function is lowered, but only an access by name is
then a long one: an access at a fixed address is always an absolute one.
-/

namespace Backend65816

open List

variable {count : Nat} {code : List Instr} {ctx : SelectionContext} {addr : Address}
  {action : Action} {ops : List Op} {op : Op} {loc : Loc} {width : Width} {reg : VReg}

def Signature.accessMode (signature : Signature) (global : GlobalDecl) : AddressMode :=
  if global.bank ≠ signature.bank ∧ global.address = none then .long else .absolute

theorem Signature.instr_addressOf (sig : Signature) (global : GlobalDecl) (op : Op) :
    ∃ operation, (sig.addressOf global).instr op = .run operation ∧ operation.op = op ∧
      operation.mode = sig.accessMode global := by
  unfold Address.instr accessMode addressOf
  cases global.address with
  | some value => exact ⟨_, rfl, rfl, by simp⟩
  | none => by_cases own : global.bank = sig.bank <;> simp [own, Instr.long, Instr.absolute]

namespace Select

/-- The code is among the instructions selected behind the first ones. -/
def Has (count : Nat) (code : List Instr) (state : SelectionState) : Prop :=
  count ≤ state.code.size ∧ code ⊆ state.code.toList.drop count

theorem Has.append {old : Array Instr} (has : count ≤ old.size ∧ code ⊆ old.toList.drop count)
    (more : List Instr) : count ≤ (old ++ more.toArray).size ∧
      code ++ more ⊆ (old ++ more.toArray).toList.drop count := by
  rw [Array.toList_append, drop_append_of_le_length has.1]
  exact ⟨le_trans has.1 (by simp), append_subset.2 ⟨subset_append_of_subset_left _ has.2,
    subset_append_right ..⟩⟩

instance steady_has : Steady (Has count code) where
  emit has _ := (Has.append has _).imp_right fun all => (append_subset.1 all).1
  switch has _ := (Has.append has [_]).imp_right fun all => (append_subset.1 all).1

theorem has_emit {instr : Instr} : Leads ctx (Has count []) (emit [instr]) fun _ =>
    Has count [instr] :=
  fun _ has => always_emit (Has.append has [instr])

/-- The step selects an instruction with one of the mnemonics that reaches the address. -/
def Accesses (context : SelectionContext) (count : Nat) (address : Address) (ops : List Op)
    (step : Select Unit) : Prop :=
  Leads context (Has count []) step fun _ final => ∃ op ∈ ops, final |> Has count [address.instr op]

theorem accesses_of_leads {step : Select Unit} (mem : op ∈ ops)
    (leads : Leads ctx (Has count []) step fun _ => Has count [addr.instr op]) :
    Accesses ctx count addr ops step :=
  fun state has => (leads state has).mono fun _ _ selected => ⟨op, mem, selected⟩

theorem accesses_loadAbsolute :
    Accesses ctx count addr [.lda, .ldx, .ldy] (loadAbsolute reg loc width addr) := by
  have throughAccumulator : Accesses ctx count addr [.lda, .ldx, .ldy]
      (do setAccumulator width; emit [addr.instr .lda]; storeAccumulator reg) :=
    accesses_of_leads (by simp) <| keeps_setAccumulator.seq <| has_emit.seq keeps_storeAccumulator
  unfold loadAbsolute
  split
  iterate 2
    split
    · exact accesses_of_leads (by simp) has_emit
    · exact throughAccumulator
  exact throughAccumulator

theorem accesses_storeAbsolute :
    Accesses ctx count addr [.sta, .stx, .sty] (storeAbsolute reg loc width addr) := by
  have throughAccumulator : Accesses ctx count addr [.sta, .stx, .sty]
      (do setAccumulator width; loadAccumulator reg; emit [addr.instr .sta]) :=
    accesses_of_leads (by simp) <| keeps_setAccumulator.seq <| keeps_loadAccumulator.seq has_emit
  unfold storeAbsolute
  split
  iterate 2
    split
    · exact accesses_of_leads (by simp) has_emit
    · exact throughAccumulator
  exact throughAccumulator

end Select

def Action.accessOps : Action → List Op
  | load _ _ => [.lda, .ldx, .ldy]
  | store _ _ => [.sta, .stx, .sty]
  | _ => []

theorem Select.accesses_action (reached : action.address? = some addr) (direct : addr.base = none) :
    Accesses ctx count addr action.accessOps (Select.action action) := by
  cases action with
  | load target address =>
    cases reached
    refine .look rfl fun _ => .look rfl fun _ => ?_
    rw [direct]
    exact accesses_loadAbsolute
  | store address value =>
    cases reached
    cases value with
    | imm => exact leads_reject
    | reg =>
      refine .look rfl fun _ => .look rfl fun _ => ?_
      rw [direct]
      exact accesses_storeAbsolute
  | _ => cases reached

/-- Wherever the value of the action is placed, its code has an instruction with the addressing mode
that reaches the address. -/
def Action.Reaches (action : Action) (address : Address) (mode : AddressMode) : Prop :=
  ∀ context state final, Select.action action context state = .ok ((), final) →
    ∃ operation, operation.op ∈ action.accessOps ∧ operation.mode = mode ∧
      address.instr operation.op = .run operation ∧
      .run operation ∈ final.code.toList.drop state.code.size

/-- In a function that compiles, every load and store by name goes to a global of the unit. It is a
long one if the global is in another bank and has no fixed address, and else an absolute one. -/
theorem Job.compile_accessesGlobals (job : Job) (context : UnitContext)
    (function : CompiledFunction) (compiled : job.compile context = .ok function)
    (block : BasicBlock) (block_mem : block ∈ function.graph.blocks) (action : Action)
    (mem : action ∈ block.actions) (address : Address) (reached : action.address? = some address)
    (named : address.symbol ≠ "") :
    ∃ global ∈ context.unit.globals, address = job.signature.addressOf global ∧
      action.Reaches address (job.signature.accessMode global) := by
  have made := Job.compile_ok compiled
  have allowed := made.allowed block block_mem action mem
  rw [made.signature] at allowed
  cases allowed with
  | plain quiet => simp [Action.isLocal, reached, named] at quiet
  | global found same =>
    cases same.symm.trans reached
    refine ⟨_, mem_of_find?_eq_some found, rfl, fun ctx state final selects => ?_⟩
    obtain ⟨op, op_mem, -, selected⟩ :=
      Select.accesses_action reached rfl state ⟨le_refl _, nil_subset _⟩ _ _ selects
    obtain ⟨operation, instr_eq, rfl, mode_eq⟩ := job.signature.instr_addressOf _ op
    exact ⟨operation, op_mem, mode_eq, instr_eq, instr_eq ▸ selected (.head _)⟩
  | direct | routine | table => cases reached

theorem keepingJob_accessesGlobals : ∃ function, keepingJob.compile keepingContext = .ok function ∧
    ∃ block ∈ function.graph.blocks, ∃ action ∈ block.actions, ∃ address,
      action.address? = some address ∧ address.symbol = "total" ∧
      ∃ global ∈ keeping.globals, address = keepingJob.signature.addressOf global ∧
        action.Reaches address (keepingJob.signature.accessMode global) := by
  obtain ⟨fn, compiles, graph_eq, -⟩ := keepingJob_compile
  have block_mem : keepingGraph.blockAt 0 ∈ fn.graph.blocks := by
    rw [graph_eq]
    exact ⟨.head _⟩
  have mem : .store { symbol := "total" } (.reg 2) ∈ (keepingGraph.blockAt 0).actions := by decide
  exact ⟨fn, compiles, _, block_mem, _, mem, _, rfl, rfl,
    keepingJob.compile_accessesGlobals _ fn compiles _ block_mem _ mem _ rfl (by decide)⟩

end Backend65816
