import Backend65816.Proofs.LocationTransfers

/-!
# Constants and copies

The code of constants and copies gives the location of the target its value, whatever the locations
are. A copy between the halves of the accumulator passes the stack.
-/

namespace Backend65816

open Mode SelectionContext Width Machine

variable {num depth : Int} {excepted : Int → Prop} {loc : Loc} {after start : Machine}
  {width : Mode} {fits : Prop} {ctx : SelectionContext} {syms : String → Int}
  {goal : Unit → SelectionState → MachinePoint → Prop} {target src : VReg}

/-- Code has given a location the outcome of an action. Other memory is as it was, but for temporary
bytes and what is excepted. An outcome that fits has no bits above its width. -/
structure SelectionContext.Computes (context : SelectionContext) (symbols : String → Int)
    (depth : Int) (excepted : Int → Prop) (fits : Prop) (before : Machine) (width : Mode)
    (location : Loc) (number : Int) (after : Machine) : Prop where
  direct : after.direct = before.direct
  stack : after.stack = before.stack
  bank : after.bank = before.bank
  contents : context.contents symbols depth after width location = number
  extended : fits → after.ZeroExtended width location
  memory : ∀ address, ¬context.Covers symbols depth before width location address →
    ¬context.IsTemporary before address → ¬excepted address →
    after.memory address = before.memory address

theorem SelectionContext.Delivers.computes {machine : Machine}
    (undisturbed : ctx.Undisturbed start machine)
    (delivers : ctx.Delivers syms depth machine width loc num after) :
    ctx.Computes syms depth excepted fits start width loc num after where
  direct := delivers.direct.trans undisturbed.direct
  stack := delivers.stack.trans undisturbed.stack
  bank := delivers.bank.trans undisturbed.bank
  contents := delivers.contents
  extended _ := delivers.extended
  memory address outside permanent _ := by
    rw [← undisturbed.memory address permanent]
    refine delivers.memory address ?_ ?_
    · rintro ⟨span, span_eq, covers⟩
      refine outside ⟨span, ?_, covers⟩
      rw [← span_eq]
      exact (span?_congr undisturbed.direct undisturbed.stack undisturbed.bank).symm
    · rwa [isTemporary_congr undisturbed.direct]

namespace Select

/-- The code of an action has left its outcome in a location. -/
def Finishes (context : SelectionContext) (symbols : String → Int) (depth : Int)
    (excepted : Int → Prop) (fits : Prop) (start : Machine) (width : Mode) (location : Loc)
    (number : Int) (state : SelectionState) (point : MachinePoint) : Prop :=
  ∃ after, point = (.running, after) ∧ state.accumulator = after.mode.width ∧
    context.Computes symbols depth excepted fits start width location number after

/-- Code leaves an outcome in a location. -/
abbrev Yields (syms : String → Int) (ctx : SelectionContext) (failing : Prop)
    (excepted : Int → Prop) (fits : Prop) (start : Machine) (width : Mode) (code : Select Unit)
    (loc : Loc) (num : Int) (state : SelectionState) (m : Machine) : Prop :=
  Ensures syms ctx failing code
    (fun _ => Finishes ctx syms state.depth excepted fits start width loc num) state (.running, m)

section Copies

variable {failing : Prop} {state : SelectionState} {m : Machine} {mode : Mode}

theorem finishes (computes : ctx.Computes syms depth excepted fits start mode loc num after)
    (synced : state.accumulator = after.mode.width) :
    Finishes ctx syms depth excepted fits start mode loc num state (.running, after) :=
  ⟨after, rfl, synced, computes⟩

theorem ensures_deliver (undisturbed : ctx.Undisturbed start m)
    (at_width : m.mode = mode) (acc : m.accumulator = num) (synced : state.accumulator = mode.width)
    (width_eq : ctx.graph.width target = mode.width) (plain : (ctx.places target).isPlain = true) :
    Yields syms ctx failing excepted fits start mode (storeAccumulator target) (ctx.places target)
      num state m := by
  subst at_width acc
  refine ensures_storeAccumulator width_eq plain fun code after delivers same_mode => ?_
  exact finishes (delivers.computes undisturbed) (synced.trans (congrArg width same_mode.symm))

theorem computes_b (syms : String → Int) (ctx : SelectionContext) (depth : Int)
    (excepted : Int → Prop) (fits : Prop) (m : Machine) (byte : BitVec 8) (zero : Bool) :
    ctx.Computes syms depth excepted fits m .narrow (.reg .b) byte.toNat
      { m with b := byte, zero } :=
  ⟨rfl, rfl, rfl, rfl, fun _ => ⟨nofun, nofun⟩, fun _ _ _ _ => rfl⟩

theorem exists_narrow_of_b (at_mode : m.mode = ctx.graph.mode)
    (holds : Reg.b.canHold mode.width ctx.graph.mode = true) :
    m.mode = .narrow ∧ mode = .narrow := by
  obtain ⟨narrow, byte⟩ := Reg.canHold_b.mp holds
  exact ⟨at_mode.trans narrow, width_injective byte⟩

/-- An instruction on a location between exchanges of the halves of the accumulator. -/
theorem ensures_access_exchanged {op : Op} (mem : loc.isMemory = true)
    (reached : ∀ code operation, operation.Names syms ctx state.depth op loc →
      ∃ after, m.exchange.access syms operation = some after ∧
        goal () { state with code } (.running, after.exchange)) :
    Ensures syms ctx failing
      (Select.memory op loc >>= fun instr => emit [.plain .xba, instr, .plain .xba]) goal state
      (.running, m) := by
  refine (ensures_memory (fun _ operation names => ?_) fun refused => ?_).bind
  · obtain ⟨after, accessed, last⟩ := reached _ operation names
    have runs : runCode syms [.run operation] (.running, m.exchange) = some (.running, after) := by
      rw [names.runCode_eq, accessed]
      rfl
    exact ensures_emit (runCode_exchange runs) last
  · rw [mem] at refused
    cases refused

/-- The copy is between the halves of the accumulator. -/
def CopiesHalf (context : SelectionContext) (target source : VReg) : Prop :=
  context.places target = .reg .a ∧ context.places source = .reg .b ∨
    context.places target = .reg .b ∧ context.places source = .reg .a

variable (synced : state.accumulator = m.mode.width)
include synced

theorem ensures_switch_load (mode : Mode) {next : Select Unit}
    (plain : (ctx.places src).isPlain = true)
    (reached : ∀ code loaded, loaded.mode = mode → ctx.Undisturbed m loaded →
      loaded.accumulator = ctx.contents syms state.depth m mode (ctx.places src) →
      Ensures syms ctx failing next goal { state with code, accumulator := mode.width }
        (.running, loaded)) :
    Ensures syms ctx failing
      (setAccumulator mode.width >>= fun _ => loadAccumulator src >>= fun _ => next) goal state
      (.running, m) := by
  refine (ensures_setAccumulator mode synced fun code => ?_).bind
  refine (ensures_loadAccumulator plain fun code loaded carries => ?_).bind
  exact reached code loaded carries.mode ((undisturbed_mode mode).trans carries.undisturbed)
    carries.accumulator

/-! ## Constants -/

theorem ensures_const {value : Int} (at_mode : m.mode = ctx.graph.mode)
    (width_eq : ctx.graph.width target = mode.width) (placed : ctx.places target ≠ .nowhere)
    (holds : ∀ hw, ctx.places target = .reg hw → hw.canHold mode.width ctx.graph.mode = true) :
    Yields syms ctx failing excepted fits m mode (const target value) (ctx.places target)
      (mode.width.truncate value) state m := by
  have number_holds := mode.width.holds_truncate value
  have cut : Width.word.truncate (mode.width.truncate value) = mode.width.truncate value := by
    obtain ⟨nonneg, below⟩ := holds_iff.mp number_holds
    have le : mode.width.modulus ≤ Width.word.modulus := by cases mode <;> decide
    exact holds_iff.mpr ⟨nonneg, by omega⟩
  unfold Yields const
  rw [ensures_place, ensures_widthOf, width_eq]
  split
  · next loc =>
    rw [loc]
    exact ensures_emit (congrArg (fun num => some (Control.running, m.setX num)) cut)
      (finishes ((delivers_setIndex rfl (.refl m) number_holds).computes (.refl m)) synced)
  · next loc =>
    rw [loc]
    exact ensures_emit (congrArg (fun num => some (Control.running, m.setY num)) cut)
      (finishes ((delivers_setIndex rfl (.refl m) number_holds).computes (.refl m)) synced)
  · next loc =>
    rw [loc]
    obtain ⟨narrow, rfl⟩ := exists_narrow_of_b at_mode (holds .b loc)
    have byte_eq : ((lowByte (Width.byte.truncate (Width.byte.truncate value))).toNat : Int) =
        Width.byte.truncate value := by
      rw [truncate_truncate, toNat_lowByte]
      exact truncate_truncate ..
    have computes := computes_b syms ctx state.depth excepted fits m
      (lowByte (Width.byte.truncate (Width.byte.truncate value))) (m.a = 0)
    rw [byte_eq] at computes
    refine ensures_emit ?_ (finishes computes synced)
    obtain ⟨a, b, x, y, stack, direct, bank, cur, carry, zero, mem⟩ := m
    cases narrow
    rfl
  · next notX notY notB =>
    have plain : (ctx.places target).isPlain = true := by
      simpa [Loc.isPlain, placed] using notB
    refine (ensures_setAccumulator mode synced fun code => ?_).bind
    split
    · next zero =>
      refine ensures_put (Loc.isMemory_of_isIndexable zero.2)
        (fun _ names => names.reaches zero.2 rfl rfl)
        (fun op op_eq => by rw [access, op_eq]) (holds_zero _)
        fun code after delivers same_mode => ?_
      rw [zero.1]
      exact finishes (delivers.computes (undisturbed_mode mode))
        (congrArg width same_mode.symm)
    · refine (ensures_emit (runCode_lda (by rfl) _) ?_).bind
      refine ensures_deliver ((undisturbed_mode mode).trans ?_)
        (setAccumulator_mode ..) ?_ rfl width_eq plain
      · exact (carries_setAccumulator ..).undisturbed
      · rw [accumulator_setAccumulator]
        simp

/-! ## Copies -/

theorem ensures_highToMemory (mem : loc.isMemory = true) (narrow : m.mode = .narrow) :
    Yields syms ctx failing excepted fits m .narrow
      (Select.memory .sta loc >>= fun instr => emit [.plain .xba, instr, .plain .xba]) loc m.b.toNat
      state m := by
  refine ensures_access_exchanged mem fun code op names => ?_
  obtain ⟨span, span_eq⟩ := ctx.exists_span? mem syms state.depth m
  have span_exchanged : ctx.span? syms state.depth m.exchange loc = some span := span_eq
  have acc : m.exchange.accumulator = m.b.toNat := by
    rw [accumulator, show m.exchange.mode = .narrow from narrow]
    rfl
  have holds : m.mode.width.Holds m.b.toNat := by
    rw [narrow]
    exact holds_toNat
  have written := (delivers_write span_eq holds).withZero (m.a = 0)
  rw [access, names.op_eq, ← narrow]
  rw [names.put?_eq span_exchanged rfl, acc]
  exact ⟨_, rfl, finishes (written.computes (.refl m)) synced⟩

/-- A copy of the high half of the accumulator. Within the accumulator it passes the stack. -/
theorem ensures_moveFromB {target : Loc} (narrow : m.mode = .narrow) (placed : target ≠ .nowhere)
    (different : target ≠ .reg .b) (excepts : target = .reg .a → excepted m.stack.toNat) :
    Yields syms ctx failing excepted fits m .narrow (moveFromB target) target m.b.toNat state
      m := by
  have same : { m with mode := .narrow } = m := by rw [← narrow]
  have through_temp : runCode syms [.plain .xba, .direct .sta ctx.settings.operandTemp,
      .plain .xba, .direct .stz (ctx.settings.operandTemp + 1)] (.running, m) =
        some (.running, ctx.extendedTemp { m with zero := m.a = 0 } m.b.toNat) := by
    obtain ⟨a, b, x, y, stack, direct, bank, cur, carry, zero, mem⟩ := m
    cases narrow
    rfl
  have undisturbed : ctx.Undisturbed m (ctx.extendedTemp { m with zero := m.a = 0 } m.b.toNat) :=
    (undisturbed_zero m _).trans (ctx.undisturbed_extendedTemp ..)
  have holds : Mode.narrow.width.Holds m.b.toNat := holds_toNat
  refine (ensures_setAccumulator .narrow synced fun code => ?_).bind
  rw [same]
  refine .look rfl ?_
  cases target with
  | nowhere => exact absurd rfl placed
  | reg hw =>
    have loaded (idx : hw.isIndex = true) :=
      ctx.runCode_extendedTemp syms { m with zero := m.a = 0 } idx holds
    cases hw with
    | a =>
      refine ensures_emit
        ((runCode_append [.plain .xba] _ _).trans (runCode_lowToHigh narrow)) (finishes
          ⟨rfl, rfl, rfl, rfl, fun _ => ⟨nofun, nofun⟩,
            fun addr _ _ spared => if_neg fun pushed => ?_⟩ (congrArg Mode.width narrow.symm))
      exact spared (pushed ▸ excepts rfl)
    | b => exact absurd rfl different
    | x | y =>
      exact ensures_emit (runCode_append_of through_temp (loaded rfl))
        (finishes ((delivers_setIndex rfl undisturbed holds).computes (.refl m))
          (congrArg Mode.width narrow.symm))
  | _ => exact ensures_highToMemory (congrArg Mode.width narrow.symm) rfl narrow

theorem ensures_memoryToHigh (mem : loc.isMemory = true) (narrow : m.mode = .narrow) :
    Yields syms ctx failing excepted fits m .narrow
      (Select.memory .lda loc >>= fun instr => emit [.plain .xba, instr, .plain .xba]) (.reg .b)
      (ctx.contents syms state.depth m .narrow loc) state m := by
  refine ensures_access_exchanged mem fun code op names => ?_
  obtain ⟨span, span_eq⟩ := ctx.exists_span? mem syms state.depth m
  have span_exchanged : ctx.span? syms state.depth m.exchange loc = some span := span_eq
  have loaded : m.exchange.access syms op = some { m.exchange with
        a := lowByte (m.memory.read span .narrow)
        zero := lowByte (m.memory.read span .narrow) = 0 } := by
    have exchanged : m.exchange.mode = .narrow := narrow
    have fetched : m.exchange.fetch? syms op m.exchange.mode =
        some (m.memory.read span .narrow) := by
      rw [exchanged]
      exact names.fetch?_eq span_exchanged rfl
    rw [access, names.op_eq]
    simp_all [setAccumulator_of_narrow]
  have read_eq : ((lowByte (m.memory.read span .narrow)).toNat : Int) =
      ctx.contents syms state.depth m .narrow loc := by
    rw [contents_of_span? span_eq]
    exact m.memory.holds_read span .narrow
  refine ⟨_, loaded, finishes ?_ synced⟩
  rw [← read_eq]
  exact computes_b ..

theorem ensures_moveToB {src : Loc} (narrow : m.mode = .narrow) (placed : src ≠ .nowhere)
    (different : src ≠ .reg .b) (excepts : src = .reg .a → excepted m.stack.toNat) :
    Yields syms ctx failing excepted fits m .narrow (moveToB src) (.reg .b)
      (ctx.contents syms state.depth m .narrow src) state m := by
  have same : { m with mode := .narrow } = m := by rw [← narrow]
  have transfers {state : SelectionState} (op : Op) (num : BitVec 16)
      (synced : state.accumulator = m.mode.width)
      (performs : runCode syms [.plain op] (.running, m.exchange) =
        some (.running, m.exchange.setAccumulator num.toNat)) :
      Yields syms ctx failing excepted fits m .narrow (emit [.plain .xba, .plain op, .plain .xba])
        (.reg .b) (Width.byte.truncate num.toNat) state m := by
    have exchanged : m.exchange.mode = .narrow := narrow
    rw [setAccumulator_of_narrow exchanged] at performs
    refine ensures_emit (runCode_exchange performs) (finishes ?_ synced)
    change ctx.Computes syms state.depth excepted fits m .narrow (.reg .b)
      ((num.toNat : Int) % 0x100) _
    rw [← toNat_lowByte]
    exact computes_b ..
  refine (ensures_setAccumulator .narrow synced fun code => ?_).bind
  rw [same]
  cases src with
  | nowhere => exact absurd rfl placed
  | reg hw =>
    cases hw with
    | a =>
      refine ensures_emit (runCode_lowToHigh narrow) (finishes
        ⟨rfl, rfl, rfl, rfl, fun _ => ⟨nofun, nofun⟩,
          fun addr _ _ spared => if_neg fun pushed => ?_⟩
        (congrArg width narrow.symm))
      exact spared (pushed ▸ excepts rfl)
    | b => exact absurd rfl different
    | x => exact transfers .txa m.x (congrArg width narrow.symm) rfl
    | y => exact transfers .tya m.y (congrArg width narrow.symm) rfl
  | _ => exact ensures_memoryToHigh (congrArg width narrow.symm) rfl narrow

theorem ensures_move (at_mode : m.mode = ctx.graph.mode)
    (target_width : ctx.graph.width target = mode.width)
    (source_width : ctx.graph.width src = mode.width) (target_placed : ctx.places target ≠ .nowhere)
    (source_placed : ctx.places src ≠ .nowhere)
    (target_holds : ∀ hw, ctx.places target = .reg hw → hw.canHold mode.width ctx.graph.mode = true)
    (source_holds : ∀ hw, ctx.places src = .reg hw → hw.canHold mode.width ctx.graph.mode = true)
    (extended : m.ZeroExtended mode (ctx.places src))
    (excepts : CopiesHalf ctx target src → excepted m.stack.toNat) :
    Yields syms ctx failing excepted fits m mode (move target src) (ctx.places target)
      (ctx.contents syms state.depth m mode (ctx.places src)) state m := by
  unfold Yields move
  rw [ensures_place, ensures_place, ensures_widthOf, target_width]
  split
  · next same =>
    refine ensures_pure (finishes ⟨rfl, rfl, rfl, by rw [same], fun _ => ?_, fun _ _ _ _ => rfl⟩
      synced)
    rwa [same]
  have through (notToB : ctx.places target ≠ .reg .b) (notFromB : ctx.places src ≠ .reg .b) :
      Yields syms ctx failing excepted fits m mode (moveThroughAccumulator target src mode.width)
        (ctx.places target) (ctx.contents syms state.depth m mode (ctx.places src)) state m := by
    refine ensures_switch_load synced mode (by simp [Loc.isPlain, source_placed, notFromB])
      fun code loaded at_width undisturbed acc => ?_
    exact ensures_deliver undisturbed at_width acc rfl target_width
      (by simp [Loc.isPlain, target_placed, notToB])
  split
  · next fromB =>
    obtain ⟨narrow, rfl⟩ := exists_narrow_of_b at_mode (source_holds .b fromB)
    rw [fromB]
    exact ensures_moveFromB synced narrow target_placed (by rwa [← fromB]) fun toA =>
      excepts (.inl ⟨toA, fromB⟩)
  · next toB notFromB =>
    obtain ⟨narrow, rfl⟩ := exists_narrow_of_b at_mode (target_holds .b toB)
    rw [toB]
    exact ensures_moveToB synced narrow source_placed notFromB fun fromA =>
      excepts (.inr ⟨toB, fromA⟩)
  -- From here on the two index registers go the same way.
  iterate 2
    · next src_eq target_eq =>
      first | have holds := extended.holds_x src_eq | have holds := extended.holds_y src_eq
      rw [target_eq, src_eq, SelectionContext.contents, value, holds]
      exact ensures_emit rfl (finishes
        ((delivers_setIndex rfl (.refl m) holds).computes (.refl m)) synced)
  iterate 2
    · next target_eq _ _ =>
      split
      · next loaded =>
        obtain rfl : mode = .wide := width_injective loaded.1
        rw [target_eq]
        refine ensures_fetch (Loc.isMemory_of_isIndexable loaded.2)
          (fun _ names => names.reaches loaded.2 rfl rfl)
          (fun op op_eq => by rw [access, op_eq]) fun code => ?_
        exact finishes ((delivers_setIndex rfl (.refl m)
          (ctx.holds_contents ..)).computes (.refl m)) synced
      · exact through (by simp [target_eq]) ‹_›
  iterate 2
    · next src_eq _ _ _ =>
      split
      · next stored =>
        obtain rfl : mode = .wide := width_injective stored.1
        first | have holds := extended.holds_x src_eq | have holds := extended.holds_y src_eq
        rw [src_eq, SelectionContext.contents, value, holds]
        refine ensures_put (Loc.isMemory_of_isIndexable stored.2)
          (fun _ names => names.reaches stored.2 rfl rfl)
          (fun op op_eq => by rw [access, op_eq]) holds
          fun code after delivers same_mode => ?_
        exact finishes (delivers.computes (.refl m)) (synced.trans (congrArg _ same_mode.symm))
      · exact through ‹_› (by simp [src_eq])
  · exact through ‹_› ‹_›

end Copies

end Select

end Backend65816
