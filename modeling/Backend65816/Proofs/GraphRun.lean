import Mathlib.Algebra.Order.Ring.Int
import Backend65816.Flow.Graph

/-!
# Runs of block graphs

A run of a block graph starts at its entry with the arguments of the function. Values are cut to the
width of the register that takes them and comparisons are unsigned. The run ends when it returns.
Calls, stack operations, constant tables and changes of width have no step here.
-/

namespace Backend65816

open Int Option

variable {res : List Int × (Address → Int)} {first second steps : Nat} {term : Terminator}
  {width : Width}

/-! ## Arithmetic at a width -/

namespace Width

def signed (width : Width) (value : Int) : Int :=
  if value < width.signBit then value else value - width.modulus

section

variable (width : Width)

theorem modulus_pos : 0 < width.modulus := by
  unfold modulus
  split <;> decide

variable (value : Int)

theorem truncate_nonneg : 0 ≤ width.truncate value :=
  emod_nonneg _ (ne_of_gt width.modulus_pos)

theorem truncate_lt : width.truncate value < width.modulus :=
  emod_lt_of_pos _ width.modulus_pos

@[simp]
theorem truncate_truncate : width.truncate (width.truncate value) = width.truncate value :=
  emod_emod_of_dvd _ (dvd_refl _)

end

def Holds (width : Width) (value : Int) : Prop := width.truncate value = value

theorem holds_truncate (width : Width) (value : Int) : width.Holds (width.truncate value) :=
  width.truncate_truncate value

theorem holds_iff {value : Int} : width.Holds value ↔ 0 ≤ value ∧ value < width.modulus := by
  constructor
  · intro holds
    rw [← holds]
    exact ⟨width.truncate_nonneg value, width.truncate_lt value⟩
  · rintro ⟨nonneg, below⟩
    exact emod_eq_of_lt nonneg below

theorem holds_zero (width : Width) : width.Holds 0 := zero_emod _

theorem holds_toInt (width : Width) (truth : Bool) : width.Holds truth.toInt := by
  rw [holds_iff]
  unfold modulus
  cases truth <;> split <;> decide

end Width

def BinKind.apply (kind : BinKind) (width : Width) (left right : Int) : Int :=
  width.truncate <|
    match kind with
    | .add => left + right
    | .sub => left - right
    | .and => (left.toNat &&& right.toNat : Nat)
    | .or => (left.toNat ||| right.toNat : Nat)
    | .xor => (left.toNat ^^^ right.toNat : Nat)
    | .shl => left * 2 ^ right.toNat
    | .shr => left / 2 ^ right.toNat
    | .sar => width.signed left / 2 ^ right.toNat

theorem BinKind.holds_apply (kind : BinKind) (width : Width) (left right : Int) :
    width.Holds (kind.apply width left right) :=
  width.holds_truncate _

/-- The outcome of an operation on a number. A boolean not tells whether the number is zero; the code
for it counts on a number that is zero or one. -/
def UnKind.apply (kind : UnKind) (width : Width) (operand : Int) : Int :=
  width.truncate <|
    match kind with
    | .neg => -operand
    | .not => (operand == 0).toInt
    | .cpl => -operand - 1

theorem UnKind.holds_apply (kind : UnKind) (width : Width) (operand : Int) :
    width.Holds (kind.apply width operand) :=
  width.holds_truncate _

/-! ## Steps -/

/-- Contents of the registers and of memory. -/
structure GraphState where
  registers : VReg → Int
  memory : Address → Int

namespace GraphState

def read (state : GraphState) : Value → Int
  | .reg register => state.registers register
  | .imm value => value

def write (state : GraphState) (width : Width) (target : VReg) (value : Int) : GraphState :=
  { state with registers := Function.update state.registers target (width.truncate value) }

theorem write_self (state : GraphState) (width : Width) (target : VReg) (value : Int) :
    (state.write width target value).registers target = width.truncate value :=
  Function.update_self ..

theorem write_of_ne (state : GraphState) {target other : VReg} {value : Int}
    (different : other ≠ target) :
    (state.write width target value).registers other = state.registers other :=
  Function.update_of_ne different ..

end GraphState

/-- A point of a run of a block graph. -/
structure GraphPoint where
  block : BlockId
  position : Nat
  state : GraphState

/-- The end of a block in a state: another block, or values that are returned. -/
def Terminator.follow (state : GraphState) : Terminator → Option (BlockId ⊕ List Int)
  | .jump target => some (.inl target)
  | .branch condition left right yes no =>
    some (.inl (if condition.eval (state.registers left) (state.read right) then yes else no))
  | .jumpTable index targets => targets[(state.registers index).toNat]?.map .inl
  | .giveBack values => some (.inr (values.map state.registers))

namespace Graph

/-- The state after an action of a function that is called with arguments. -/
def act (graph : Graph) (arguments : Nat → Int) (state : GraphState) : Action → Option GraphState
  | .params targets =>
    some (targets.zipIdx.foldl
      (fun state (target, index) => state.write (graph.width target) target (arguments index))
      state)
  | .const target value => some (state.write (graph.width target) target value)
  | .move target source =>
    some (state.write (graph.width target) target (state.registers source))
  | .bin kind target left right _ =>
    let width := graph.width target
    some (state.write width target (kind.apply width (state.registers left) (state.read right)))
  | .un kind target source =>
    let width := graph.width target
    some (state.write width target (kind.apply width (state.registers source)))
  | .setCond condition target left right =>
    some (state.write (graph.width target) target
      (condition.eval (state.registers left) (state.read right)).toInt)
  | .load target address => some (state.write (graph.width target) target (state.memory address))
  | .store address source =>
    some { state with memory := Function.update state.memory address (state.read source) }
  | .convert _ _ _ | .lookup _ _ _ | .push _ | .call _ | .dispatch _ => none

/-- A step of a run: to the next point, or to the values that are returned and the memory that is
left. -/
def step (graph : Graph) (arguments : Nat → Int) (point : GraphPoint) :
    Option (GraphPoint ⊕ (List Int × (Address → Int))) := do
  let block ← graph.blocks[point.block]?
  match block.actions[point.position]? with
  | some action =>
    let state ← graph.act arguments point.state action
    return .inl { point with position := point.position + 1, state }
  | none =>
    match ← (← block.terminator).follow point.state with
    | .inl target => return .inl { block := target, position := 0, state := point.state }
    | .inr values => return .inr (values, point.state.memory)

section Steps

variable {graph : Graph} {args : Nat → Int} {id : BlockId} {block : BasicBlock}
  {pos : Nat} {state : GraphState}

section

variable (found : graph.blocks[id]? = some block)
include found

theorem step_action {action : Action} (next : block.actions[pos]? = some action)
    {after : GraphState} (acts : graph.act args state action = some after) :
    graph.step args ⟨id, pos, state⟩ = some (.inl ⟨id, pos + 1, after⟩) := by
  simp [step, found, next, acts]

theorem step_terminator (done : block.actions.length ≤ pos) (ends : block.terminator = some term)
    {target : BlockId} (follows : term.follow state = some (.inl target)) :
    graph.step args ⟨id, pos, state⟩ = some (.inl ⟨target, 0, state⟩) := by
  simp_all [step]

theorem step_return (done : block.actions.length ≤ pos) (ends : block.terminator = some term)
    {vals : List Int} (follows : term.follow state = some (.inr vals)) :
    graph.step args ⟨id, pos, state⟩ = some (.inr (vals, state.memory)) := by
  simp_all [step]

end

theorem step_cases {point : GraphPoint} {res : GraphPoint ⊕ (List Int × (Address → Int))}
    (stepped : graph.step args point = some res) :
    ∃ block, graph.blocks[point.block]? = some block ∧
      ((∃ action after, block.actions[point.position]? = some action ∧
          graph.act args point.state action = some after ∧
          res = .inl ⟨point.block, point.position + 1, after⟩) ∨
        ∃ term, block.actions.length ≤ point.position ∧ block.terminator = some term ∧
          ((∃ target, term.follow point.state = some (.inl target) ∧
              res = .inl ⟨target, 0, point.state⟩) ∨
            ∃ vals, term.follow point.state = some (.inr vals) ∧
              res = .inr (vals, point.state.memory))) := by
  obtain ⟨block, found, stepped⟩ := bind_eq_some_iff.mp stepped
  refine ⟨block, found, ?_⟩
  cases next : block.actions[point.position]? with
  | some action =>
    simp only [next] at stepped
    obtain ⟨after, acts, same⟩ := bind_eq_some_iff.mp stepped
    simp_all
  | none =>
    simp only [next] at stepped
    obtain ⟨term, ends, stepped⟩ := bind_eq_some_iff.mp stepped
    obtain ⟨way, follows, same⟩ := bind_eq_some_iff.mp stepped
    refine .inr ⟨term, List.getElem?_eq_none_iff.mp next, ends, ?_⟩
    cases way with
    | inl target =>
      cases same
      exact .inl ⟨target, follows, rfl⟩
    | inr vals =>
      cases same
      exact .inr ⟨vals, follows, rfl⟩

end Steps

/-- A run of a number of steps from one point to another. -/
inductive ReachesIn (graph : Graph) (arguments : Nat → Int) :
    Nat → GraphPoint → GraphPoint → Prop where
  | refl (point : GraphPoint) : ReachesIn graph arguments 0 point point
  | head {steps : Nat} {before middle after : GraphPoint}
      (first : graph.step arguments before = some (.inl middle))
      (later : ReachesIn graph arguments steps middle after) :
      ReachesIn graph arguments (steps + 1) before after

namespace ReachesIn

variable {graph : Graph} {args : Nat → Int} {before mid after : GraphPoint}

theorem single (stepped : graph.step args before = some (.inl after)) :
    ReachesIn graph args 1 before after :=
  .head stepped (.refl after)

theorem trans (early : ReachesIn graph args first before mid)
    (late : ReachesIn graph args second mid after) :
    ReachesIn graph args (first + second) before after := by
  induction early with
  | refl => rwa [Nat.zero_add]
  | head stepped _ ih =>
    simp_all [Nat.succ_add, head]

theorem tail (early : ReachesIn graph args steps before mid)
    (stepped : graph.step args mid = some (.inl after)) :
    ReachesIn graph args (steps + 1) before after :=
  early.trans (.single stepped)

theorem split (early : ReachesIn graph args first before mid)
    (late : ReachesIn graph args second before after) (le : first ≤ second) :
    ReachesIn graph args (second - first) mid after := by
  induction early generalizing second with
  | refl => rwa [Nat.sub_zero]
  | head stepped _ ih =>
    cases late with
    | refl => omega
    | head other later =>
      simp_all

end ReachesIn

/-- Entry of a run: all registers may hold anything, but what stands for no register is zero. -/
def start (graph : Graph) (registers : VReg → Int) (memory : Address → Int) : GraphPoint where
  block := graph.entry
  position := 0
  state := { registers := Function.update registers 0 0, memory }

/-- The run from a point returns values and leaves memory. -/
def ReturnsFrom (graph : Graph) (arguments : Nat → Int) (point : GraphPoint)
    (result : List Int × (Address → Int)) : Prop :=
  ∃ steps last, graph.ReachesIn arguments steps point last ∧
    graph.step arguments last = some (.inr result)

def RunsForeverFrom (graph : Graph) (arguments : Nat → Int) (point : GraphPoint) : Prop :=
  ∀ steps, ∃ last, graph.ReachesIn arguments steps point last

variable {graph : Graph} {args : Nat → Int} {point : GraphPoint}

theorem steps_le_of_returns {more : Nat} {last other : GraphPoint}
    (ran : graph.ReachesIn args steps point last)
    (returned : graph.step args last = some (.inr res))
    (runs : graph.ReachesIn args more point other) : more ≤ steps := by
  by_contra longer
  have rest := ran.split runs (by omega)
  cases count : more - steps with
  | zero => omega
  | succ count =>
    rw [count] at rest
    cases rest with
    | head first _ =>
      rw [returned] at first
      cases first

theorem ReturnsFrom.unique {first second : List Int × (Address → Int)}
    (one : graph.ReturnsFrom args point first)
    (other : graph.ReturnsFrom args point second) : first = second := by
  obtain ⟨steps, last, ran, returned⟩ := one
  obtain ⟨more, final, ran', returned'⟩ := other
  have le := steps_le_of_returns ran' returned' ran
  have ge := steps_le_of_returns ran returned ran'
  have rest := ran.split ran' le
  rw [Nat.sub_eq_zero_of_le ge] at rest
  cases rest with
  | refl =>
    simp_all

theorem ReturnsFrom.not_runsForever
    (returns : graph.ReturnsFrom args point res) : ¬graph.RunsForeverFrom args point := by
  obtain ⟨steps, last, ran, returned⟩ := returns
  intro forever
  obtain ⟨other, longer⟩ := forever (steps + 1)
  have le := steps_le_of_returns ran returned longer
  omega

end Graph

end Backend65816
