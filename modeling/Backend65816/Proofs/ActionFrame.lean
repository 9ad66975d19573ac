import Backend65816.Proofs.SelectionFrame

/-!
# Registers that the code of actions leaves alone

Constants, copies, operations, and reads and writes of memory change no register outside their write
sets. The proofs follow the case distinctions of code selection.
-/

namespace Backend65816

open Instr Loc RegMask Operation Graph

variable {kind : BinKind} {offset : Int} {hw : Reg} {value : Value} {code : List Instr}

namespace Select

/-! ## Constants and copies -/

section Actions

variable {syms : String → Int} {ctx : SelectionContext} {mask : RegMask} {start : Machine}
  {cur : Mode} {state : SelectionState} {point : MachinePoint} {target src : VReg}

variable {mode : Mode} {loc : Loc} {left : VReg} {right : Value} {addr : Address}

theorem Kept.emit_narrow (kept : Kept ctx mask start .narrow state point)
    (narrow : ctx.graph.mode = .narrow) (keeps : KeepsOutside syms mask .narrow .narrow code) :
    kept.Ends syms (Select.emit code) := by
  refine (kept.emit ?_).ended
  rw [narrow]
  exact keeps

section

variable (kept : Kept ctx mask start cur state point)
include kept

theorem Kept.emit_store (keeps : KeepsOutside syms mask ctx.graph.mode cur code)
    (has : mask.Covers (ctx.places target)) :
    kept.Ends syms (do Select.emit code; Select.storeAccumulator target) :=
  (kept.emit keeps).andThen fun kept => (kept.storeAccumulator has).ended

theorem Kept.constThrough (syms : String → Int) (target : VReg) (value : Int) (mode : Mode)
    (takes : value = 0 ∧ (ctx.places target).isIndexable = true ∨
      mask.TakesAccumulator ctx.graph.mode mode)
    (has : mask.Covers (ctx.places target)) : kept.Ends syms (do
      Select.setAccumulator mode.width
      if mode.width.truncate value = 0 ∧ (ctx.places target).isIndexable then
        Select.emit [← Select.memory .stz (ctx.places target)]
      else
        Select.emit [.immediate .lda (mode.width.truncate value) mode.width.bytes]
        Select.storeAccumulator target) := by
  refine (kept.setAccumulator mode).andThen fun kept => ?_
  split
  · next zero =>
    exact (kept.memory .stz (fun _ names => names.reaches zero.2 rfl rfl) trivial).ended
  · next nonzero =>
    have takes := takes.resolve_left fun both => nonzero ⟨by rw [both.1]; rfl, both.2⟩
    exact kept.emit_store (.single (steady_immediate .lda rfl rfl takes)) has

end

variable (kept : Kept ctx mask start ctx.graph.mode state point)

theorem Kept.const {value : Int} (suits : ctx.Suits [target])
    (mask_eq : mask = ctx.graph.writes ctx.places (.const target value)) :
    kept.Ends syms (Select.const target value) := by
  obtain ⟨mode, width_eq⟩ := suits.mode target (.head _)
  have holds := suits.holds target (.head _)
  have through := kept.constThrough syms target value mode
  unfold Ends Select.const
  rw [ensures_place, ensures_widthOf]
  rw [width_eq] at holds ⊢
  rw [writes] at mask_eq
  cases loc : ctx.places target with
  | reg hw =>
    rw [loc] at mask_eq through
    have has : mask.has hw = true := mask_eq ▸ has_mask rfl
    have fits := holds hw loc
    cases hw with
    | a =>
      refine through (.inr ?_) fun hw same => by cases same; exact has
      rw [mask_eq]
      exact takesAccumulator_single fits
    | x | y =>
      refine (kept.emit_one ?_).ended
      exact steady_immediate _ rfl rfl has
    | b =>
      obtain ⟨narrow, byte⟩ := Reg.canHold_b.mp fits
      rw [narrow] at kept
      refine kept.emit_narrow narrow (.highHalf ?_ has)
      exact steady_immediate .lda rfl rfl takesAccumulator_low
  | _ =>
    rw [loc] at through
    refine through ?_ nofun
    rw [mask_eq, loc]
    split
    · next reg => cases reg
    · grind [takesAccumulator_writes]

theorem Kept.moveFromB {target : Loc} (kept : Kept ctx mask start .narrow state point)
    (narrow : ctx.graph.mode = .narrow) (has : mask.Covers target) :
    kept.Ends syms (Select.moveFromB target) := by
  refine (kept.setAccumulator .narrow).andThen fun kept => ?_
  refine .look rfl ?_
  have emits {code : List Instr} (keeps : KeepsOutside syms mask .narrow .narrow code) :=
    kept.emit_narrow narrow keeps
  cases target with
  | reg hw =>
    have has := has hw rfl
    cases hw with
    | a =>
      have takes : mask.TakesAccumulator .narrow .narrow := ⟨has, nofun⟩
      exact emits ((KeepsOutside.aside (steady_plain .pha rfl trivial)).append
        (.single (steady_plain .pla rfl takes)))
    | x | y =>
      exact emits ((KeepsOutside.aside (steady_direct .sta rfl trivial)).append
        (.cons (steady_direct .stz rfl trivial) (.single (steady_direct _ rfl has))))
    | b => exact (ensures_memory nofun fun _ => trivial).bind
  | _ =>
    refine (ensures_memory (fun _ op names => emits (.aside ?_)) fun _ => trivial).bind
    exact names.steady rfl trivial

theorem Kept.moveToB {src : Loc} (kept : Kept ctx mask start .narrow state point)
    (narrow : ctx.graph.mode = .narrow) (has : mask.has .b = true) :
    kept.Ends syms (Select.moveToB src) := by
  refine (kept.setAccumulator .narrow).andThen fun kept => ?_
  have emits {code : List Instr} (keeps : KeepsOutside syms mask .narrow .narrow code) :=
    kept.emit_narrow narrow keeps
  cases src with
  | reg hw =>
    cases hw with
    | a =>
      refine emits fun m narrow => ⟨_, runCode_lowToHigh narrow, narrow, fun _ => rfl,
        fun outside => absurd outside (by simp [Mode.highHalf, has]), fun _ => rfl,
        fun _ => rfl⟩
    | x | y => exact emits (.highHalf (steady_plain _ rfl takesAccumulator_low) has)
    | b => exact (ensures_memory nofun fun _ => trivial).bind
  | _ =>
    refine (ensures_memory (fun _ op names => emits (.highHalf ?_ has)) fun _ => trivial).bind
    exact names.steady rfl takesAccumulator_low

theorem has_moveWrites {target src : Loc} {width : Width} (different : target ≠ src)
    (target_eq : target = .reg hw) : (moveWrites mode target src width).has hw = true := by
  have own : target.mask.has hw = true := has_mask target_eq
  unfold moveWrites
  rw [if_neg different]
  split
  · exact own
  split
  · simp_all
  split
  · exact own
  split
  · exact own
  split
  · next stored =>
    rw [target_eq] at stored
    cases stored.2.2
  grind [has_union_right]

theorem takes_moveWrites {target src : Loc} (different : target ≠ src) (fromB : src ≠ .reg .b)
    (toB : target ≠ .reg .b) (transfer : ¬(src.isIndexReg = true ∧ target.isIndexReg = true))
    (loaded : ¬(target.isIndexReg = true ∧ cur.width = .word ∧ src.isIndexable = true))
    (stored : ¬(src.isIndexReg = true ∧ cur.width = .word ∧ target.isIndexable = true)) :
    src = .reg .a ∨ (moveWrites mode target src cur.width).TakesAccumulator mode cur := by
  by_cases fromA : src = .reg .a
  · exact .inl fromA
  · rw [moveWrites, if_neg different, if_neg fromB, if_neg toB, if_neg transfer, if_neg loaded,
      if_neg stored, if_neg fromA]
    exact .inr ((takesAccumulator_writes ..).mono has_union_left)

theorem Kept.moveThroughAccumulator (kept : Kept ctx mask start cur state point)
    (takes : ctx.places src = .reg .a ∨ mask.TakesAccumulator ctx.graph.mode mode)
    (has : mask.Covers (ctx.places target)) :
    kept.Ends syms (moveThroughAccumulator target src mode.width) := by
  refine (kept.setAccumulator mode).andThen fun kept => ?_
  refine (kept.loadAccumulator takes).andThen fun kept => ?_
  exact (kept.storeAccumulator has).ended

theorem Kept.move (suits : ctx.Suits [target, src])
    (mask_eq : mask = ctx.graph.writes ctx.places (.move target src)) :
    kept.Ends syms (Select.move target src) := by
  obtain ⟨mode, width_eq⟩ := suits.mode target (.head _)
  have narrow (reg : VReg) (mem : reg ∈ [target, src])
      (loc : ctx.places reg = .reg .b) : ctx.graph.mode = .narrow :=
    (Reg.canHold_b.mp (suits.holds reg mem .b loc)).1
  unfold Ends Select.move
  rw [ensures_place, ensures_place, ensures_widthOf]
  rw [writes, width_eq] at mask_eq
  split
  · exact ensures_pure ⟨_, kept⟩
  next different =>
  have has (hw : Reg) (loc : ctx.places target = .reg hw) : mask.has hw = true :=
    mask_eq ▸ has_moveWrites different loc
  have through (fromB : ctx.places src ≠ .reg .b) (toB : ctx.places target ≠ .reg .b)
      transfer loaded stored :
      kept.Ends syms (.moveThroughAccumulator target src mode.width) :=
    kept.moveThroughAccumulator
      (mask_eq ▸ takes_moveWrites different fromB toB transfer loaded stored) has
  split
  · next fromB =>
    have narrow := narrow src (by simp) fromB
    rw [narrow] at kept
    exact kept.moveFromB narrow has
  · next toB _ =>
    have narrow := narrow target (by simp) toB
    rw [narrow] at kept
    exact kept.moveToB narrow (has .b toB)
  · next loc => exact (kept.emit_one (steady_plain .txy rfl (has .y loc))).ended
  · next loc => exact (kept.emit_one (steady_plain .tyx rfl (has .x loc))).ended
  iterate 2
    · next loc _ _ =>
      split
      · next loaded =>
        refine (kept.memory _ (fun _ names => names.reaches loaded.2 rfl rfl) ?_).ended
        exact has _ loc
      · grind
  iterate 2
    · split
      · next stored =>
        exact (kept.memory _ (fun _ names => names.reaches stored.2 rfl rfl) (by trivial)).ended
      · grind
  · grind

/-! ## Operations -/

theorem takes_union (mask_eq : mask = (accumulatorWrites mode cur.width).union loc.mask) :
    mask.TakesAccumulator mode cur :=
  mask_eq ▸ (takesAccumulator_writes ..).mono has_union_left

theorem takes_wide {more rest : RegMask}
    (mask_eq : mask = ((accumulatorWrites mode .word).union more).union rest) :
    mask.TakesAccumulator mode .wide :=
  mask_eq ▸ ((takesAccumulator_writes _ .wide).mono has_union_left).mono has_union_left

theorem has_union {set : RegMask} (mask_eq : mask = set.union loc.mask) (hw : Reg)
    (location_eq : loc = .reg hw) : mask.has hw = true :=
  mask_eq ▸ has_union_right hw (has_mask location_eq)

theorem Kept.convert {signed : Bool} (suits : ctx.Suits [target, src])
    (mask_eq : mask = ctx.graph.writes ctx.places (.convert target src signed)) :
    kept.Ends syms (Select.convert target src signed) := by
  obtain ⟨mode, width_eq⟩ := suits.mode target (by simp)
  obtain ⟨sourceMode, source_eq⟩ := suits.mode src (by simp)
  rw [writes, width_eq] at mask_eq
  have takes := takes_union mask_eq
  have has := has_union mask_eq
  unfold Ends Select.convert
  rw [ensures_widthOf, ensures_widthOf, width_eq, source_eq]
  split
  · next wider =>
    obtain rfl : mode = .wide := by
      cases mode <;> cases sourceMode <;> first | rfl | exact absurd wider (by decide)
    refine (kept.loadExtended takes).andThen fun kept => ?_
    split
    · exact kept.emit_store (.cons (steady_immediate .eor rfl rfl takes)
        (.cons (steady_plain .sec rfl trivial) (.single (steady_immediate .sbc rfl rfl takes)))) has
    · exact (kept.storeAccumulator has).ended
  · exact kept.moveThroughAccumulator (.inr takes) has

theorem keepsOutside_shiftStep (kind : BinKind) (takes : mask.TakesAccumulator mode cur) :
    KeepsOutside syms mask mode cur (shiftStep kind cur.width) := by
  cases kind with
  | shl => exact .single (steady_plain .asl rfl takes)
  | sar =>
    exact .cons (steady_immediate .cmp rfl rfl trivial) (.single (steady_plain .ror rfl takes))
  | _ => exact .single (steady_plain .lsr rfl takes)

/-- The instruction of an operation reads its operand at the width of the accumulator and changes
the accumulator. -/
theorem arithmeticOp_on_accumulator (kind : BinKind) :
    (∀ mode, (arithmeticOp kind).2.reaches mode = true) ∧
      (∀ cur, (arithmeticOp kind).2.reads cur = some cur) ∧
      (arithmeticOp kind).2.result = some .a := by
  cases kind <;> exact ⟨fun _ => rfl, fun _ => rfl, rfl⟩

theorem keepsOutside_carry (kind : BinKind) :
    KeepsOutside syms mask mode cur (arithmeticOp kind).1 := by
  cases kind with
  | add => exact .single (steady_plain .clc rfl trivial)
  | sub => exact .single (steady_plain .sec rfl trivial)
  | _ => exact .nil

section

variable (early : Kept ctx mask start cur state point)
  (takes : mask.TakesAccumulator ctx.graph.mode cur) (has : mask.Covers (ctx.places target))
include early takes has

theorem Kept.shift : early.Ends syms (shift kind target left right cur.width) := by
  cases right with
  | reg reg => exact ensures_reject trivial
  | imm amount =>
    refine (early.loadAccumulator (.inr takes)).andThen fun kept => ?_
    exact kept.emit_store (.replicate (keepsOutside_shiftStep kind takes) _) has

theorem Kept.arithmetic : early.Ends syms (arithmetic kind target left right cur.width) := by
  obtain ⟨reaches, reads, res⟩ := arithmeticOp_on_accumulator kind
  have inside : (arithmeticOp kind).2.Inside mask ctx.graph.mode cur := by
    rw [Op.Inside, res]
    exact takes
  refine (early.operand reaches (reads cur) inside).andThen fun {instr _ _} both => ?_
  obtain ⟨kept, steady⟩ := both
  refine (kept.loadAccumulator (.inr takes)).andThen fun kept => ?_
  exact kept.emit_store ((keepsOutside_carry kind).append (.single steady)) has

end

theorem Kept.bin {noWrap : Bool} (suits : ctx.Suits (target :: left :: right.registers))
    (mask_eq : mask = ctx.graph.writes ctx.places (.bin kind target left right noWrap)) :
    kept.Ends syms (Select.bin kind target left right noWrap) := by
  obtain ⟨mode, width_eq⟩ := suits.mode target (by simp)
  rw [writes, width_eq] at mask_eq
  unfold Ends Select.bin
  rw [ensures_place, ensures_widthOf, width_eq]
  split
  · next inPlace =>
    rw [if_pos inPlace] at mask_eq
    have indexed : (ctx.places target).isIndexReg = true := (Bool.and_eq_true_iff.mp inPlace).2
    refine (kept.emit_one ?_).ended
    rcases isIndexReg_iff.mp indexed with loc | loc <;> rw [loc]
    · exact steady_plain .inx rfl (mask_eq ▸ has_mask loc)
    · exact steady_plain .iny rfl (mask_eq ▸ has_mask loc)
  · next notInPlace =>
    rw [if_neg notInPlace] at mask_eq
    refine (kept.setAccumulator mode).andThen fun kept => ?_
    split
    · exact kept.shift (takes_union mask_eq) (has_union mask_eq)
    · exact kept.arithmetic (takes_union mask_eq) (has_union mask_eq)

theorem Kept.un {kind : UnKind} (suits : ctx.Suits [target, src])
    (mask_eq : mask = ctx.graph.writes ctx.places (.un kind target src)) :
    kept.Ends syms (Select.un kind target src) := by
  obtain ⟨mode, width_eq⟩ := suits.mode target (by simp)
  rw [writes, width_eq] at mask_eq
  have takes := takes_union mask_eq
  unfold Ends Select.un
  rw [ensures_widthOf, width_eq]
  refine (kept.setAccumulator mode).andThen fun kept => ?_
  refine (kept.loadAccumulator (.inr takes)).andThen fun kept => ?_
  have complement (num : Int) :
      (Instr.immediate .eor num mode.width.bytes).Steady mask ctx.graph.mode mode :=
    steady_immediate .eor rfl rfl takes
  cases kind with
  | neg =>
    exact kept.emit_store (.cons (complement _) (.single (steady_plain .inc rfl takes)))
      (has_union mask_eq)
  | cpl | not => exact kept.emit_store (.single (complement _)) (has_union mask_eq)

/-! ## Memory -/

theorem steady_address (op : Op) (absolute : op.reaches .absolute = true)
    (long : addr.far = true → op.reaches .long = true) (inside : op.Inside mask mode cur) :
    (addr.instr op).Steady mask mode cur := by
  unfold Address.instr
  split
  · exact ⟨_, rfl, fits_of_isMemory rfl absolute, inside⟩
  split
  · next far => exact ⟨_, rfl, fits_of_isMemory rfl (long far), inside⟩
  · exact ⟨_, rfl, fits_of_isMemory rfl absolute, inside⟩

theorem steady_indexed (op : Op) (reaches : ∀ mode, op.reaches mode = true)
    (inside : op.Inside mask mode cur) : (indexedInstr op hw offset).Steady mask mode cur := by
  refine ⟨_, rfl, fits_of_isMemory ?_ (reaches _), inside⟩
  cases hw <;> rfl

theorem steady_indirect {num : Int} (op : Op) (reaches : op.reaches .indirect = true)
    (inside : op.Inside mask mode cur) : (Instr.indirect op num).Steady mask mode cur :=
  ⟨_, rfl, fits_of_isMemory rfl reaches, inside⟩

theorem Kept.loadAbsolute
    (mask_eq : mask = loadWrites ctx.graph.mode mode.width (ctx.places target) none addr.far) :
    kept.Ends syms (Select.loadAbsolute target (ctx.places target) mode.width addr) := by
  rw [loadWrites] at mask_eq
  have through (notDirect : ¬(!addr.far && (ctx.places target).isIndexReg &&
      mode.width = .word) = true) :
      kept.Ends syms (do
        Select.setAccumulator mode.width
        Select.emit [addr.instr .lda]
        Select.storeAccumulator target) := by
    rw [if_neg notDirect] at mask_eq
    refine (kept.setAccumulator mode).andThen fun kept => ?_
    exact kept.emit_store (.single (steady_address .lda rfl (fun _ => rfl) (takes_union mask_eq)))
      (has_union mask_eq)
  have near {hw : Reg} (idx : hw.isIndex = true) (loc : ctx.places target = .reg hw)
      (direct : (!addr.far && mode.width = .word) = true) :
      mask.has hw = true ∧ addr.far = false := by
    simp_all [Loc.isIndexReg, has_mask]
  unfold Select.loadAbsolute
  split
  iterate 2
    · next loc =>
      split
      · next direct =>
        obtain ⟨has, near⟩ := near rfl loc direct
        exact (kept.emit_one (steady_address _ rfl (by simp [near]) (by exact has))).ended
      · simp_all
  · exact through (by grind)

theorem Kept.load (suits : ctx.Suits (target :: addr.uses))
    (mask_eq : mask = ctx.graph.writes ctx.places (.load target addr)) :
    kept.Ends syms (Select.load target addr) := by
  obtain ⟨mode, width_eq⟩ := suits.mode target (by simp)
  rw [writes, width_eq] at mask_eq
  unfold Ends Select.load
  rw [ensures_place, ensures_widthOf, width_eq]
  cases base_eq : addr.base with
  | none =>
    rw [base_eq] at mask_eq
    exact kept.loadAbsolute mask_eq
  | some base =>
    rw [base_eq, Option.map_some, loadWrites] at mask_eq
    have has : mask.Covers (ctx.places target) := by
      split at mask_eq <;> exact has_union mask_eq
    have takes : mask.TakesAccumulator ctx.graph.mode mode := by
      split at mask_eq
      · exact takes_union mask_eq
      · rw [mask_eq]
        exact ((takesAccumulator_writes ..).mono has_union_right).mono has_union_left
    rw [ensures_place]
    split
    case h_3 =>
        rw [if_neg (by grind)] at mask_eq
        refine (kept.computePointer (takes_wide mask_eq)).andThen fun kept => ?_
        refine (kept.setAccumulator mode).andThen fun kept => ?_
        exact kept.emit_store (.single (steady_indirect .lda rfl takes)) has
    all_goals
      refine (kept.setAccumulator mode).andThen fun kept => ?_
      exact kept.emit_store (.single (steady_indexed .lda (fun _ => rfl) takes)) has

theorem takes_unless
    (mask_eq : mask = if loc = .reg .a then .empty else accumulatorWrites mode cur.width) :
    loc = .reg .a ∨ mask.TakesAccumulator mode cur := by
  by_cases fromA : loc = .reg .a
  all_goals simp_all [takesAccumulator_writes]

theorem Kept.storeAbsolute
    (mask_eq : mask = storeWrites ctx.graph.mode mode.width (ctx.places src) none addr.far) :
    kept.Ends syms (Select.storeAbsolute src (ctx.places src) mode.width addr) := by
  rw [storeWrites] at mask_eq
  have through (notDirect : ¬(!addr.far && (ctx.places src).isIndexReg &&
      mode.width = .word) = true) :
      kept.Ends syms (do
        Select.setAccumulator mode.width
        Select.loadAccumulator src
        Select.emit [addr.instr .sta]) := by
    rw [if_neg notDirect] at mask_eq
    refine (kept.setAccumulator mode).andThen fun kept => ?_
    refine (kept.loadAccumulator (takes_unless mask_eq)).andThen fun kept => ?_
    exact (kept.emit_one (steady_address .sta rfl (fun _ => rfl) trivial)).ended
  unfold Select.storeAbsolute
  split
  iterate 2
    · split
      · exact (kept.emit_one (steady_address _ rfl (by grind) (by trivial))).ended
      · exact through (by grind)
  · exact through (by grind)

theorem Kept.storeIndirect {base : VReg} (takes : mask.TakesAccumulator ctx.graph.mode mode)
    (takesWide : mask.TakesAccumulator ctx.graph.mode .wide) :
    kept.Ends syms (Select.storeIndirect src base (ctx.places src) mode.width offset) := by
  have store {state : SelectionState} {point : MachinePoint}
      (kept : Kept ctx mask start mode state point) :
      kept.Ends syms (do .emit [.indirect .sta (← pointerTemp)]) :=
    (kept.emit_one (steady_indirect .sta rfl trivial)).ended
  unfold Ends Select.storeIndirect
  refine .look rfl ?_
  split
  · refine (kept.setAccumulator mode).andThen fun kept => ?_
    refine (kept.emit_one (steady_direct .sta rfl trivial)).andThen fun kept => ?_
    refine (kept.computePointer takesWide).andThen fun kept => ?_
    refine (kept.setAccumulator mode).andThen fun kept => ?_
    exact (kept.emit_one (steady_direct .lda rfl takes)).andThen fun kept => store kept
  · refine (kept.computePointer takesWide).andThen fun kept => ?_
    refine (kept.setAccumulator mode).andThen fun kept => ?_
    exact (kept.loadAccumulator (.inr takes)).andThen fun kept => store kept

theorem Kept.store (suits : ctx.Suits (addr.uses ++ value.registers))
    (mask_eq : mask = ctx.graph.writes ctx.places (.store addr value)) :
    kept.Ends syms (store addr value) := by
  cases value with
  | imm num => exact ensures_reject trivial
  | reg src =>
    obtain ⟨mode, width_eq⟩ := suits.mode src (by simp [Value.registers])
    rw [writes, width_eq] at mask_eq
    unfold Ends store
    rw [ensures_place, ensures_widthOf, width_eq]
    cases base_eq : addr.base with
    | none =>
      rw [base_eq] at mask_eq
      exact kept.storeAbsolute mask_eq
    | some base =>
      rw [base_eq, Option.map_some, storeWrites] at mask_eq
      rw [ensures_place]
      split
      case h_3 =>
          rw [if_pos (by grind)] at mask_eq
          refine kept.storeIndirect ?_ ?_ <;> rw [mask_eq]
          · exact (takesAccumulator_writes ..).mono has_union_right
          · exact (takesAccumulator_writes _ .wide).mono has_union_left
      all_goals
        rw [if_neg (by grind)] at mask_eq
        refine (kept.setAccumulator mode).andThen fun kept => ?_
        refine (kept.loadAccumulator (takes_unless mask_eq)).andThen fun kept => ?_
        exact (kept.emit_one (steady_indexed .sta (fun _ => rfl) trivial)).ended

theorem Kept.lookup {idx : VReg} {table : String} (suits : ctx.Suits [target, idx])
    (mask_eq : mask = ctx.graph.writes ctx.places (.lookup target table idx)) :
    kept.Ends syms (Select.lookup target table idx) := by
  obtain ⟨mode, width_eq⟩ := suits.mode target (by simp)
  have read {state : SelectionState} {point : MachinePoint} {res : RegMask} (result_eq : res =
        (accumulatorWrites ctx.graph.mode mode.width).union (ctx.places target).mask)
      (subset : ∀ reg, res.has reg = true → mask.has reg = true)
      (kept : Kept ctx mask start mode state point) :
      kept.Ends syms (do
        Select.emit [.run { op := .lda, mode := .longX, symbol := table }]
        Select.storeAccumulator target) := by
    refine kept.emit_store (.single ⟨_, rfl, fits_of_isMemory rfl rfl, ?_⟩)
      fun hw loc => subset _ (has_union result_eq hw loc)
    exact (takes_union result_eq).mono subset
  rw [writes, width_eq] at mask_eq
  unfold Ends Select.lookup
  rw [ensures_widthOf, width_eq]
  refine .look rfl (ensures_place.mpr ?_)
  split
  · next short =>
    rw [if_pos short] at mask_eq
    exact (kept.setAccumulator mode).andThen fun kept =>
      read rfl (fun _ => by rw [mask_eq]; exact id) kept
  · next scaled =>
    rw [if_neg scaled] at mask_eq
    have takesWide := takes_wide mask_eq
    have has : mask.has .x = true :=
      mask_eq ▸ has_union_left .x (has_union_right .x rfl)
    have transfer {state : SelectionState} {point : MachinePoint}
        (kept : Kept ctx mask start .wide state point) :
        kept.Ends syms (do
          Select.emit [.plain .tax]
          Select.setAccumulator mode.width
          Select.emit [.run { op := .lda, mode := .longX, symbol := table }]
          Select.storeAccumulator target) := by
      refine (kept.emit_one (steady_plain .tax rfl has)).andThen fun kept => ?_
      exact (kept.setAccumulator mode).andThen fun kept =>
        read rfl (fun _ => by simp_all) kept
    refine (kept.loadExtended takesWide).andThen fun kept => ?_
    split
    · exact (kept.emit_one (steady_plain .asl rfl takesWide)).andThen fun kept =>
        transfer kept
    · exact transfer kept

theorem Kept.push (suits : ctx.Suits value.registers)
    (mask_eq : mask = ctx.graph.writes ctx.places (.push value)) :
    kept.Ends syms (Select.push value) := by
  cases value with
  | imm num => exact ensures_reject trivial
  | reg src =>
    obtain ⟨mode, width_eq⟩ := suits.mode src (by simp [Value.registers])
    rw [writes, width_eq] at mask_eq
    have pushed {state : SelectionState} {point : MachinePoint}
        (ended : Ended ctx mask start state point) :
        Ensures syms ctx True
          (modify fun state => { state with depth := state.depth + mode.width.bytes })
          (fun _ => Ended ctx mask start) state point := by
      obtain ⟨cur, kept⟩ := ended
      exact ensures_modify rfl ⟨_, kept.accumulator, kept.running, kept.mode_eq, kept.same⟩
    have through (notDirect : ¬((ctx.places src).isIndexReg = true ∧ mode.width = .word)) :
        kept.Ends syms (do
          Select.setAccumulator mode.width
          Select.loadAccumulator src
          Select.emit [.plain .pha]) := by
      refine (kept.setAccumulator mode).andThen fun kept => ?_
      refine (kept.loadAccumulator ?_).andThen fun kept => ?_
      · refine takes_unless (mask_eq.trans (if_congr ?_ rfl rfl))
        exact or_iff_left notDirect
      · exact (kept.emit_one (steady_plain .pha rfl trivial)).ended
    unfold Ends Select.push
    rw [ensures_widthOf, width_eq, ensures_place]
    split
    iterate 2
      · split
        · exact (kept.emit_one (steady_plain _ rfl (by trivial))).ended.andThen pushed
        · exact (through (by grind)).andThen pushed
    · exact (through (by grind)).andThen pushed

end Actions

end Select

end Backend65816
