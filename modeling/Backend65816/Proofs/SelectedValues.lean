import Backend65816.Proofs.AccumulatorSteps
import Backend65816.Proofs.CopiedValues
import Backend65816.Proofs.WriteSets

/-!
# Values that selected code computes

The code of a constant, copy, change of width or operation leaves the outcome in the location of the
target, whatever the locations of the operands are.
-/

namespace Backend65816

open Int Width Machine SelectionContext Mode

variable {kind : BinKind} {loc : Loc} {m : Machine} {ctx : SelectionContext} {syms : String → Int}
  {right : Value}

def Width.extended (width : Width) (signed : Bool) (value : Int) : Int :=
  if signed then width.signed value else value

theorem Width.truncate_extended {width wider : Width} (divides : width.modulus ∣ wider.modulus)
    (signed : Bool) (value : Int) :
    width.truncate (wider.extended signed value) = width.truncate value := by
  grind [extended, signed, truncate_congr]

/-- The second operand of an operation: the number of places of a shift, or a value of the width. -/
def BinKind.second (kind : BinKind) (width : Width) (values : VReg → Int) : Value → Int
  | .imm number => if kind.isShift then number else width.truncate number
  | .reg register => values register

section

variable (ctx)

variable (syms)

/-- The low byte of a word is the narrowed value. The high half of the accumulator has no word. -/
theorem SelectionContext.contents_narrow (depth : Int) (m : Machine) (plain : loc.isPlain = true) :
    ctx.contents syms depth m .narrow loc =
      byte.truncate (ctx.contents syms depth m .wide loc) := by
  rcases Loc.isPlain_cases plain with rfl | rfl | rfl | mem
  · change (m.a.toNat : Int) = joined m.a m.b % 0x100
    unfold joined
    omega
  · exact (emod_emod_of_dvd _ (by decide)).symm
  · exact (emod_emod_of_dvd _ (by decide)).symm
  · obtain ⟨span, span_eq⟩ := ctx.exists_span? mem syms depth m
    simp_all [contents_of_span?, Memory.read_narrow]

end

theorem SelectionContext.contents_wide {depth : Int} (extended : m.ZeroExtended .narrow loc)
    (indexed : loc.isIndexReg = true) :
    ctx.contents syms depth m .wide loc = ctx.contents syms depth m .narrow loc := by
  have wider {num : Nat} (byte : Width.byte.Holds num) :
      Width.word.truncate num = Width.byte.truncate num := by
    obtain ⟨nonneg, below⟩ := holds_iff.mp byte
    rw [byte]
    exact holds_iff.mpr ⟨nonneg, lt_trans below (by decide)⟩
  cases loc with
  | reg hw =>
    cases hw with
    | a | b => cases indexed
    | x => exact wider (extended.holds_x rfl)
    | y => exact wider (extended.holds_y rfl)
  | _ => cases indexed

namespace Select

section Operations

variable {failing fits : Prop} {excepted : Int → Prop} {state : SelectionState} {start : Machine}
  {mode : Mode}

variable {target src left : VReg}

section

variable (undisturbed : ctx.Undisturbed start m) (at_width : m.mode = mode)
  (synced : state.accumulator = mode.width) (width_eq : ctx.graph.width target = mode.width)
  (target_plain : (ctx.places target).isPlain = true)
include undisturbed at_width synced width_eq target_plain

theorem ensures_leave {code : List Instr} {num : Int} (leaves : m.Leaves syms code num) :
    Yields syms ctx failing excepted fits start mode
      (emit code >>= fun _ => storeAccumulator target) (ctx.places target) num state m := by
  obtain ⟨after, runs, carries⟩ := leaves
  refine (ensures_emit runs ?_).bind
  exact ensures_deliver (undisturbed.trans carries.undisturbed) (carries.mode.trans at_width)
    carries.accumulator synced width_eq target_plain

theorem ensures_shift {amount : Int} (shifts : kind.isShift = true) (nonneg : 0 ≤ amount)
    (left_plain : (ctx.places left).isPlain = true) :
    Yields syms ctx failing excepted fits start mode
      (shift kind target left (.imm amount) mode.width) (ctx.places target)
      (kind.apply mode.width (ctx.contents syms state.depth m mode (ctx.places left)) amount)
      state m := by
  subst at_width
  refine (ensures_loadAccumulator left_plain fun code loaded carries => ?_).bind
  rw [← carries.accumulator]
  have holds : m.mode.width.Holds loaded.accumulator := carries.mode ▸ loaded.holds_accumulator
  have leaves := loaded.leaves_shift syms shifts carries.mode (min amount m.mode.width.bits).toNat
  rw [apply_min shifts holds nonneg] at leaves
  refine ensures_leave (undisturbed.trans carries.undisturbed) carries.mode ?_ width_eq
    target_plain leaves
  exact synced

theorem ensures_arithmetic (plain : kind.isShift = false)
    (left_plain : (ctx.places left).isPlain = true)
    (right_plain : ∀ reg, right = .reg reg → (ctx.places reg).isPlain = true) (apart : ∀ addr,
      ctx.Covers syms state.depth m mode (ctx.places left) addr → ¬ctx.IsTemporary m addr) :
    Yields syms ctx failing excepted fits start mode (arithmetic kind target left right mode.width)
      (ctx.places target) (kind.apply mode.width
        (ctx.contents syms state.depth m mode (ctx.places left))
        (ctx.operandValue syms state.depth m mode right)) state m := by
  subst at_width
  have reaches (mode : AddressMode) : (arithmeticOp kind).2.reaches mode = true := by
    cases kind <;> rfl
  refine (ensures_operand reaches right_plain fun code op prepared prepares provides => ?_).bind
  refine (ensures_loadAccumulator left_plain fun code loaded carries => ?_).bind
  have leaves := carries.leaves_arithmetic kind plain provides
  have left_eq : ctx.contents syms state.depth prepared m.mode (ctx.places left) =
      ctx.contents syms state.depth m m.mode (ctx.places left) :=
    prepares.undisturbed.contents_eq prepares.a prepares.b prepares.x prepares.y apart
  rw [prepares.mode] at leaves
  rw [← left_eq]
  refine ensures_leave (undisturbed.trans (prepares.undisturbed.trans carries.undisturbed))
    (carries.mode.trans prepares.mode) ?_ width_eq target_plain leaves
  exact synced

end

section

variable (synced : state.accumulator = m.mode.width)
include synced

theorem ensures_un {kind : UnKind} (width_eq : ctx.graph.width target = mode.width)
    (target_plain : (ctx.places target).isPlain = true)
    (source_plain : (ctx.places src).isPlain = true) (truth : kind = .not →
      ctx.contents syms state.depth m mode (ctx.places src) = 0 ∨
        ctx.contents syms state.depth m mode (ctx.places src) = 1) :
    Yields syms ctx failing excepted fits m mode (un kind target src) (ctx.places target)
      (kind.apply mode.width (ctx.contents syms state.depth m mode (ctx.places src))) state m := by
  unfold Yields un
  rw [ensures_widthOf, width_eq]
  refine ensures_switch_load synced mode source_plain
    fun code loaded at_width undisturbed loaded_eq => ?_
  rw [← loaded_eq] at truth ⊢
  cases kind with
  | neg =>
    exact ensures_leave undisturbed at_width rfl width_eq target_plain
      (leaves_negation syms at_width)
  | cpl =>
    exact ensures_leave undisturbed at_width rfl width_eq target_plain (leaves_cpl syms at_width)
  | not =>
    exact ensures_leave undisturbed at_width rfl width_eq target_plain
      (leaves_not syms at_width (truth rfl))

/-! ## Changes of width -/

theorem ensures_loadExtended {goal : Unit → SelectionState → MachinePoint → Prop}
    (width_eq : ctx.graph.width src = .byte) (plain : (ctx.places src).isPlain = true)
    (extended : m.ZeroExtended .narrow (ctx.places src))
    (reached : ∀ code after, after.mode = .wide → ctx.Undisturbed m after →
      after.accumulator = ctx.contents syms state.depth m .narrow (ctx.places src) →
      goal () { state with code, accumulator := .word } (.running, after)) :
    Ensures syms ctx failing (loadExtended src) goal state (.running, m) := by
  unfold loadExtended
  rw [ensures_place, ensures_widthOf, width_eq]
  split
  · next indexed =>
    refine (ensures_setAccumulator .wide synced fun code => ?_).bind
    refine ensures_loadAccumulator plain fun code loaded carries => ?_
    refine reached _ loaded carries.mode ((undisturbed_mode .wide).trans carries.undisturbed) ?_
    have inIndex : (ctx.places src).isIndexReg = true := by
      simpa [byte, word] using indexed
    rw [carries.accumulator, ← contents_wide extended inIndex]
    rfl
  · refine ensures_switch_load synced .narrow plain
      fun code loaded narrow undisturbed loaded_eq => ?_
    refine (ensures_setAccumulator .wide (congrArg Mode.width narrow.symm) fun code => ?_).bind
    let widened : Machine := { loaded with mode := .wide }
    obtain ⟨after, runs, carries⟩ := widened.leaves_lowByte syms rfl
    refine ensures_emit runs (reached _ after carries.mode ?_ ?_)
    · exact (undisturbed.trans (undisturbed_mode .wide)).trans carries.undisturbed
    · rw [carries.accumulator, ← loaded_eq, Machine.accumulator, narrow]

theorem ensures_convert {signed : Bool} {sourceMode : Mode}
    (target_width : ctx.graph.width target = mode.width)
    (source_width : ctx.graph.width src = sourceMode.width)
    (target_plain : (ctx.places target).isPlain = true)
    (source_plain : (ctx.places src).isPlain = true)
    (extended : m.ZeroExtended sourceMode (ctx.places src)) :
    Yields syms ctx failing excepted fits m mode (convert target src signed) (ctx.places target)
      (mode.width.truncate (sourceMode.width.extended signed
        (ctx.contents syms state.depth m sourceMode (ctx.places src)))) state m := by
  unfold Yields convert
  rw [ensures_widthOf, ensures_widthOf, target_width, source_width]
  split
  · next widens =>
    obtain ⟨rfl, rfl⟩ : mode = .wide ∧ sourceMode = .narrow := by
      cases mode <;> cases sourceMode <;> simp_all [Mode.width, byte, word]
    refine (ensures_loadExtended synced source_width source_plain extended
      fun code loaded wide undisturbed loaded_eq => ?_).bind
    have byte : byte.Holds loaded.accumulator := loaded_eq ▸ ctx.holds_contents ..
    rw [← loaded_eq]
    cases signed with
    | true =>
      exact ensures_leave undisturbed wide rfl target_width target_plain
        (leaves_signExtension syms wide byte)
    | false =>
      obtain ⟨nonneg, below⟩ := holds_iff.mp byte
      have word : word.Holds loaded.accumulator :=
        holds_iff.mpr ⟨nonneg, lt_trans below (by decide)⟩
      exact ensures_deliver undisturbed wide word.symm rfl target_width target_plain
  · next keeps =>
    have divides : mode.width.modulus ∣ sourceMode.width.modulus := by
      cases mode <;> cases sourceMode <;> first | decide | exact absurd (by decide) keeps
    refine ensures_switch_load synced mode source_plain
      fun code loaded at_width undisturbed loaded_eq => ?_
    refine ensures_deliver undisturbed at_width (loaded_eq.trans ?_) rfl target_width target_plain
    rw [truncate_extended divides]
    cases mode with
    | narrow =>
      cases sourceMode with
      | narrow => exact (ctx.holds_contents ..).symm
      | wide => exact ctx.contents_narrow syms _ m source_plain
    | wide =>
      cases sourceMode with
      | narrow => exact absurd divides (by decide)
      | wide => exact (ctx.holds_contents ..).symm

end

/-! ## Two operands -/

/-- An index register counts on at 16 bits. A byte stays zero-extended in it if the sum is one. -/
theorem ensures_increment (indexed : loc.isIndexReg = true)
    (synced : state.accumulator = m.mode.width) (extended : m.ZeroExtended mode loc)
    (small : fits → ctx.contents syms state.depth m mode loc + 1 < mode.width.modulus) :
    Yields syms ctx failing excepted fits m mode
      (emit [.plain (if loc = .reg .y then .iny else .inx)]) loc
      (BinKind.add.apply mode.width (ctx.contents syms state.depth m mode loc) 1) state m := by
  have counted {reg : BitVec 16} (holds : mode.width.Holds reg.toNat) :
      mode.width.truncate (BitVec.ofInt 16 (reg.toNat + 1)).toNat =
        BinKind.add.apply mode.width (mode.width.truncate reg.toNat) 1 := by
    rw [toNat_ofInt_sixteen, holds]
    exact emod_emod_of_dvd _ (by cases mode <;> decide)
  have bounded {reg : BitVec 16} (holds : mode.width.Holds reg.toNat)
      (sum : mode.width.truncate reg.toNat + 1 < mode.width.modulus) :
      ((BitVec.ofInt 16 (reg.toNat + 1)).toNat : Int) < mode.width.modulus := by
    rw [holds] at sum
    rw [toNat_ofInt_sixteen]
    omega
  cases loc with
  | reg hw =>
    cases hw with
    | a | b => cases indexed
    | x | y =>
      first | have holds := extended.holds_x rfl | have holds := extended.holds_y rfl
      refine ensures_emit rfl (finishes ⟨rfl, rfl, rfl, counted holds, fun fitting => ?_,
        fun _ _ _ _ => rfl⟩ synced)
      constructor <;> first | exact fun _ => bounded holds (small fitting) | exact nofun
  | _ => cases indexed

theorem ensures_bin {noWrap : Bool} (synced : state.accumulator = m.mode.width)
    (width_eq : ctx.graph.width target = mode.width)
    (target_plain : (ctx.places target).isPlain = true)
    (left_plain : (ctx.places left).isPlain = true)
    (right_plain : ∀ reg, right = .reg reg → (ctx.places reg).isPlain = true)
    (by_number : kind.isShift = true → ∃ amount, 0 ≤ amount ∧ right = .imm amount) (apart : ∀ addr,
      ctx.Covers syms state.depth m mode (ctx.places left) addr →
        ¬ctx.IsTemporary m addr) (extended : m.ZeroExtended mode (ctx.places left))
    (small : fits → kind = .add ∧ right = .imm 1 ∧ noWrap = true →
      ctx.contents syms state.depth m mode (ctx.places left) + 1 < mode.width.modulus) :
    Yields syms ctx failing excepted fits m mode (bin kind target left right noWrap)
      (ctx.places target) (kind.apply mode.width
        (ctx.contents syms state.depth m mode (ctx.places left)) (kind.second mode.width
          (fun reg => ctx.contents syms state.depth m mode (ctx.places reg)) right)) state m := by
  unfold Yields bin
  rw [ensures_place, ensures_widthOf, width_eq]
  split
  · next inPlace =>
    simp only [incrementsInPlace, Bool.and_eq_true, decide_eq_true_eq] at inPlace
    obtain ⟨⟨⟨⟨rfl, rfl⟩, rfl⟩, rfl⟩, indexed⟩ := inPlace
    have one : mode.width.truncate 1 = 1 := by cases mode <;> rfl
    rw [show BinKind.add.second mode.width _ (.imm 1) = 1 from one]
    simp_all [ensures_increment]
  · refine (ensures_setAccumulator mode synced fun code => ?_).bind
    have switched : ctx.Undisturbed m { m with mode } := undisturbed_mode mode
    split
    · next shifts =>
      obtain ⟨amount, nonneg, rfl⟩ := by_number shifts
      rw [show kind.second mode.width _ (.imm amount) = amount from if_pos shifts]
      exact ensures_shift switched rfl rfl width_eq target_plain shifts nonneg left_plain
    · next plain =>
      have second_eq : kind.second mode.width (fun reg =>
          ctx.contents syms state.depth m mode (ctx.places reg)) right =
            ctx.operandValue syms state.depth m mode right := by
        cases right with
        | imm num => exact if_neg plain
        | reg reg => rfl
      rw [second_eq]
      exact ensures_arithmetic switched rfl rfl width_eq target_plain (by simpa using plain)
        left_plain right_plain apart

end Operations

end Select

/-! ## Outcomes -/

namespace Action

/-- The register that an action gives a value computed from others, and the value. -/
def outcome? (graph : Graph) (values : VReg → Int) : Action → Option (VReg × Int)
  | const target value => some (target, (graph.width target).truncate value)
  | move target source => some (target, values source)
  | convert target source signed =>
    some (target, (graph.width target).truncate
      ((graph.width source).extended signed (values source)))
  | bin kind target left right _ =>
    some (target, kind.apply (graph.width target) (values left)
      (kind.second (graph.width target) values right))
  | un kind target source => some (target, kind.apply (graph.width target) (values source))
  | params _ | setCond _ _ _ _ | load _ _ | store _ _ | lookup _ _ _ | push _ | call _
  | dispatch _ => none

/-- Operands have the widths that the action implies, the number of places of a shift is not
negative, and a boolean is zero or one. -/
def Accepts (graph : Graph) (values : VReg → Int) : Action → Prop
  | move target source => graph.width source = graph.width target
  | bin kind target left right _ =>
    (∀ register ∈ left :: right.registers, graph.width register = graph.width target) ∧
      (kind.isShift = true → ∃ amount, 0 ≤ amount ∧ right = .imm amount)
  | un kind target source =>
    graph.width source = graph.width target ∧
      (kind = .not → values source = 0 ∨ values source = 1)
  | _ => True

/-- The sum of a step that is said not to wrap around has the width of its target. -/
def Fits (graph : Graph) (values : VReg → Int) : Action → Prop
  | bin kind target left right noWrap =>
    kind = .add ∧ right = .imm 1 ∧ noWrap = true → values left + 1 < (graph.width target).modulus
  | _ => True

/-- The action puts a constant or a copy into its target. -/
def isCopy : Action → Bool
  | const _ _ | move _ _ => true
  | _ => false

end Action

namespace SelectionContext

variable (context : SelectionContext) (symbols : String → Int) (depth : Int) (machine : Machine)

def valueOf (register : VReg) : Int :=
  context.contents symbols depth machine (context.graph.width register).mode
    (context.places register)

/-- The registers of an action are where its code can work with them. -/
structure Admits (action : Action) : Prop where
  suits : context.Suits action.operands
  placed : ∀ register ∈ action.operands, context.places register ≠ .nowhere
  high : ∀ register ∈ action.operands, context.places register = .reg .b → action.isCopy = true
  apart : ∀ register ∈ action.operands, ∀ address,
    context.Covers symbols depth machine (context.graph.width register).mode
      (context.places register) address → ¬context.IsTemporary machine address
  extended : ∀ register ∈ action.sources,
    machine.ZeroExtended (context.graph.width register).mode (context.places register)
  accepts : action.Accepts context.graph (context.valueOf symbols depth machine)

/-- The address is the free byte of the stack that a copy between the halves of the accumulator
uses. -/
def Excepts (action : Action) (address : Int) : Prop :=
  (∃ target source, action = .move target source ∧ Select.CopiesHalf context target source) ∧
    address = machine.stack.toNat

variable {context symbols depth machine} {action : Action}

theorem Admits.isPlain (admits : context.Admits symbols depth machine action)
    (computes : action.isCopy = false) {reg : VReg} (mem : reg ∈ action.operands) :
    (context.places reg).isPlain = true := by
  have notHigh : context.places reg ≠ .reg .b := fun high =>
    Bool.false_ne_true (computes.symm.trans (admits.high reg mem high))
  simp [Loc.isPlain, admits.placed reg mem, notHigh]

end SelectionContext

namespace Select

theorem ensures_outcome {failing : Prop} {state : SelectionState} {action : Action} {target : VReg}
    {number : Int} (synced : state.accumulator = m.mode.width) (at_mode : m.mode = ctx.graph.mode)
    (res : action.outcome? ctx.graph (ctx.valueOf syms state.depth m) = some (target, number))
    (admits : ctx.Admits syms state.depth m action) :
    Yields syms ctx failing (ctx.Excepts m action)
      (action.Fits ctx.graph (ctx.valueOf syms state.depth m)) m (ctx.graph.width target).mode
      (Select.action action) (ctx.places target) number state m := by
  cases action with
  | const reg value =>
    cases res
    obtain ⟨mode, width_eq⟩ := admits.suits.mode target (.head _)
    have holds := admits.suits.holds target (.head _)
    rw [width_eq] at holds
    rw [width_eq, mode_width]
    exact ensures_const synced at_mode width_eq (admits.placed target (.head _)) holds
  | move reg src =>
    cases res
    obtain ⟨mode, target_width⟩ := admits.suits.mode target (.head _)
    have source_width : ctx.graph.width src = mode.width := admits.accepts.trans target_width
    have target_holds := admits.suits.holds target (.head _)
    have source_holds := admits.suits.holds src (.tail _ (.head _))
    have extended := admits.extended src (.head _)
    rw [target_width] at target_holds
    rw [source_width] at source_holds
    rw [source_width, mode_width] at extended
    rw [valueOf, target_width, source_width, mode_width]
    exact ensures_move synced at_mode target_width source_width (admits.placed target (.head _))
      (admits.placed src (.tail _ (.head _))) target_holds source_holds extended
      fun half => ⟨⟨_, _, rfl, half⟩, rfl⟩
  | convert reg src signed =>
    cases res
    obtain ⟨mode, target_width⟩ := admits.suits.mode target (.head _)
    obtain ⟨sourceMode, source_width⟩ := admits.suits.mode src (.tail _ (.head _))
    have extended := admits.extended src (.head _)
    rw [source_width, mode_width] at extended
    rw [valueOf, target_width, source_width, mode_width, mode_width]
    exact ensures_convert synced target_width source_width (admits.isPlain rfl (.head _))
      (admits.isPlain rfl (.tail _ (.head _))) extended
  | bin kind reg left right noWrap =>
    cases res
    obtain ⟨mode, target_width⟩ := admits.suits.mode target (.head _)
    obtain ⟨widths, by_number⟩ := admits.accepts
    have left_width : ctx.graph.width left = mode.width :=
      (widths left (.head _)).trans target_width
    have extended := admits.extended left (.head _)
    have apart := admits.apart left (.tail _ (.head _))
    rw [left_width, mode_width] at extended apart
    have left_eq : ctx.valueOf syms state.depth m left =
        ctx.contents syms state.depth m mode (ctx.places left) := by
      rw [valueOf, left_width, mode_width]
    have right_eq : kind.second mode.width (ctx.valueOf syms state.depth m) right =
        kind.second mode.width (fun reg =>
          ctx.contents syms state.depth m mode (ctx.places reg)) right := by
      cases right with
      | imm number => rfl
      | reg reg =>
        have right_width : ctx.graph.width reg = mode.width :=
          (widths reg (.tail _ (.head _))).trans target_width
        simp_all [BinKind.second, valueOf]
    have right_plain (reg : VReg) (right_reg : right = .reg reg) :
        (ctx.places reg).isPlain = true := by
      subst right_reg
      exact admits.isPlain rfl (.tail _ (.tail _ (.head _)))
    rw [target_width, mode_width, left_eq, right_eq]
    refine ensures_bin synced target_width (admits.isPlain rfl (.head _))
      (admits.isPlain rfl (.tail _ (.head _))) right_plain by_number apart extended ?_
    intro fits steps
    rw [← left_eq, ← target_width]
    exact fits steps
  | un kind reg src =>
    cases res
    obtain ⟨mode, target_width⟩ := admits.suits.mode target (.head _)
    obtain ⟨same, truth⟩ := admits.accepts
    have source_width : ctx.graph.width src = mode.width := same.trans target_width
    rw [valueOf, source_width, mode_width] at truth
    rw [valueOf, target_width, source_width, mode_width]
    exact ensures_un synced target_width (admits.isPlain rfl (.head _))
      (admits.isPlain rfl (.tail _ (.head _))) truth
  | _ => cases res

/-- The code of a constant, copy, change of width or operation leaves the outcome in the location of
its target, zero-extended in an index reg. In memory it changes the target and temporary bytes,
and for a copy between the halves of the accumulator the free byte of the stack. -/
theorem code_computes_outcome (symbols : String → Int) (context : SelectionContext)
    (state : SelectionState) (machine : Machine) (id : BlockId)
    (synced : state.accumulator = context.graph.mode.width)
    (at_mode : machine.mode = context.graph.mode) {action : Action} {target : VReg} {number : Int}
    (outcome : action.outcome? context.graph (context.valueOf symbols state.depth machine) =
      some (target, number))
    (admits : context.Admits symbols state.depth machine action) :
    ∃ code after, emitted (actions [] id [action]) context state = .ok code ∧
      runCode symbols code (.running, machine) = some (.running, after) ∧
      after.mode = context.graph.mode ∧
      context.Computes symbols state.depth (context.Excepts machine action)
        (action.Fits context.graph (context.valueOf symbols state.depth machine)) machine
        (context.graph.width target).mode (context.places target) number after := by
  have selects : Ensures symbols context False (actions [] id [action])
      (fun _ _ point => ∃ after, point = (.running, after) ∧ after.mode = context.graph.mode ∧
        context.Computes symbols state.depth (context.Excepts machine action)
          (action.Fits context.graph (context.valueOf symbols state.depth machine)) machine
          (context.graph.width target).mode (context.places target) number after)
      state (.running, machine) := by
    refine Ensures.andThen ?_ fun reached => ensures_pure reached
    refine (ensures_outcome (at_mode ▸ synced) at_mode outcome admits).andThen
      fun {_ final point} finished => ?_
    obtain ⟨after, rfl, after_synced, computes⟩ := finished
    exact ensures_setAccumulator _ after_synced fun code => ⟨_, rfl, rfl,
      computes.direct, computes.stack, computes.bank, computes.contents, computes.extended,
      computes.memory⟩
  obtain ⟨code, selected⟩ := selects.emits
  obtain ⟨_, _, runs, after, rfl, after_mode, computes⟩ := selects.runs_emitted selected
  exact ⟨code, after, selected, runs, after_mode, computes⟩

end Select

/-- The difference of `x` and the accumulator goes to the accumulator: one operand waits in the
temporary while the other one is loaded. -/
theorem crowdedContext_code_computes_outcome :
    let machine : Machine := ⟨0x80, 1, 2, 3, 0x1FF, 0, 0, .narrow, false, false, fun _ => 0⟩
    let difference : Action := .bin .sub 2 3 (.reg 2) false
    crowdedContext.Admits (fun _ => 0) 0 machine difference ∧ ∃ code after,
        Select.emitted (Select.actions [] 0 [difference]) crowdedContext { accumulator := .byte } =
          .ok code ∧
        runCode (fun _ => 0) code (.running, machine) = some (.running, after) ∧
        after.mode = .narrow ∧
        crowdedContext.Computes (fun _ => 0) 0 (crowdedContext.Excepts machine difference)
          (difference.Fits crowdedContext.graph (crowdedContext.valueOf (fun _ => 0) 0 machine))
          machine .narrow (.reg .a) 0x82 after := by
  intro machine difference
  have named : ∀ register ∈ difference.operands, register = 2 ∨ register = 3 := by decide
  have admits : crowdedContext.Admits (fun _ => 0) 0 machine difference := by
    refine ⟨crowdedContext_suits _ (by decide), by decide, by decide, ?_, ?_, by decide, nofun⟩
    · rintro register mem address ⟨span, span_eq, _⟩
      rcases named register mem with rfl | rfl <;> cases span_eq
    · intro register mem
      rcases named register (.tail _ mem) with rfl | rfl
      · exact ⟨nofun, nofun⟩
      · exact ⟨fun _ => by decide, nofun⟩
  have outcome : difference.outcome? crowdedContext.graph
      (crowdedContext.valueOf (fun _ => 0) 0 machine) = some (2, 0x82) := rfl
  exact ⟨admits, Select.code_computes_outcome (fun _ => 0) crowdedContext { accumulator := .byte }
    machine 0 rfl rfl outcome admits⟩

/-- A narrow function with bytes in both halves of the accumulator. -/
def halvesContext : SelectionContext where
  graph :=
    { name := "f", blocks := #[{}], vregs := #[{}, { width := .byte }, { width := .byte }] }
  places register := if register = 1 then .reg .a else .reg .b
  frameSize := 0
  signature := { name := "f" }
  settings := .standard

/-- A copy between the halves of the accumulator changes the free byte of the stack, which is no
temporary byte. The code of a boolean not flips one bit, so that of two is three and not zero. -/
theorem halvesContext_copy_writes_stack :
    let machine : Machine := ⟨0, 7, 0, 0, 0x1FF, 0, 0, .narrow, false, false, fun _ => 0⟩
    halvesContext.Admits (fun _ => 0) 0 machine (.move 1 2) ∧ (∃ code after,
        Select.emitted (Select.actions [] 0 [.move 1 2]) halvesContext { accumulator := .byte } =
          .ok code ∧
        runCode (fun _ => 0) code (.running, machine) = some (.running, after) ∧
        ∃ address, ¬halvesContext.Covers (fun _ => 0) 0 machine .narrow (.reg .a) address ∧
          ¬halvesContext.IsTemporary machine address ∧
          after.memory address ≠ machine.memory address) ∧
      ∃ code after,
        Select.emitted (Select.actions [] 0 [.un .not 1 1]) halvesContext { accumulator := .byte } =
          .ok code ∧
        runCode (fun _ => 0) code (.running, { machine with a := 2 }) = some (.running, after) ∧
        after.a = 3 ∧ UnKind.not.apply .byte 2 = 0 := by
  intro machine
  refine ⟨?_, ⟨[.plain .xba, .plain .pha, .plain .xba, .plain .pla], _, rfl, rfl, 0x1FF, ?_, ?_, ?_⟩,
    _, _, rfl, rfl, by decide, rfl⟩
  · have named : ∀ register ∈ (Action.move 1 2).operands, register = 1 ∨ register = 2 := by decide
    refine ⟨⟨?_, ?_⟩, by decide, by decide, ?_, ?_, rfl⟩
    · intro register mem
      rcases named register mem with rfl | rfl <;> exact ⟨.narrow, rfl⟩
    · intro register mem hardware location
      rcases named register mem with rfl | rfl <;> cases location <;> rfl
    · rintro register mem address ⟨span, span_eq, _⟩
      rcases named register mem with rfl | rfl <;> cases span_eq
    · intro register mem
      rcases named register (.tail _ mem) with rfl | rfl <;> exact ⟨nofun, nofun⟩
  · rintro ⟨span, span_eq, _⟩
    cases span_eq
  · rintro ⟨index, nonneg, below, same⟩
    change (0x1FF : Int) = (0 + 8 + index) % 0x10000 at same
    omega
  · decide

end Backend65816
