import Backend65816.Proofs.ActionFrame

/-!
# Code stays inside its write sets

`Graph.writes` says for an action, before its code is selected, which hardware registers the code
may change. The code that is selected keeps all others, whatever the machine holds, and leaves the
accumulator at the width of the mode. So does the code of terminators that choose a block.
-/

namespace Backend65816

open Instr RegMask

variable {thenBlock elseBlock id : BlockId} {m : Machine} {failing : Prop} {step : Select Unit}
  {yes done : String} {goal : Unit → SelectionState → MachinePoint → Prop} {width : Width}

/-- What the flags of a comparison answer for a condition. -/
def Machine.answers (machine : Machine) : Cond → Bool
  | .eq => machine.zero
  | .ne => !machine.zero
  | .lt => !machine.carry
  | .ge => machine.carry
  | .le => !machine.carry || machine.zero
  | .gt => machine.carry && !machine.zero

namespace Select

section Choices

variable {syms : String → Int} {ctx : SelectionContext} {mask : RegMask} {start : Machine}
  {cur : Mode} {state : SelectionState} {point : MachinePoint} {label : String} {mode : Mode}
  {right : Value} {cond : Cond}

/-! ## Comparisons -/

theorem ensures_branchOn
    (reached : ∀ code labels control, control = .running ∨ control = .seeking label →
      (label ≠ ctx.graph.name ++ "_" ++ "s" ++ toString (state.labels + 1) →
        control = if m.answers cond then .seeking label else .running) →
      goal () { state with code, labels } (control, m)) :
    Ensures syms ctx failing (branchOn cond label) goal state (.running, m) := by
  have ways (answer : Bool) : (if answer then Control.seeking label else .running) = .running ∨
      (if answer then Control.seeking label else .running) = .seeking label := by
    cases answer <;> simp
  obtain ⟨a, b, x, y, stack, direct, bank, mode, carry, zero, mem⟩ := m
  cases cond with
  | eq | ne | lt | ge => exact ensures_emit rfl (reached _ _ _ (ways _) fun _ => rfl)
  | le =>
    refine ensures_emit ?_ (reached _ _ _ (ways _) fun _ => rfl)
    cases carry <;> cases zero <;> rfl
  | gt =>
    unfold branchOn
    rw [ensures_freshLabel]
    generalize ctx.graph.name ++ "_" ++ "s" ++ toString (state.labels + 1) = skip at reached ⊢
    -- A branch to the label that the code itself ends with would fall through.
    refine ensures_emit ?_ (reached _ _ (if carry && !zero && label ≠ skip then .seeking label
      else .running) (ways _) fun fresh => by simp [fresh, Machine.answers])
    cases carry <;> cases zero <;> simp [runCode, Instr.advance, Operation.advance,
      Machine.takes?, Instr.branch, eq_comm (a := skip)]

theorem answer_ne_done (name : String) (first second : Nat) :
    name ++ "_" ++ "t" ++ toString first ≠ name ++ "_" ++ "d" ++ toString second := by
  intro same
  have lists := congrArg String.toList same
  simp at lists

/-- Control that is on its way to the first label ends up behind the second, as control does that
comes from above. -/
theorem runs_answer {control : Control} (different : yes ≠ done)
    (ways : control = .running ∨ control = .seeking yes) (width : Nat) :
    runCode syms [.immediate .lda 0 width, .branch .bra done, .label yes,
        .immediate .lda 1 width, .label done] (control, m) =
      runCode syms [.immediate .lda (if control = .running then 0 else 1) width] (.running, m) := by
  have loads (num : Int) : runCode syms [.immediate .lda num width] (.running, m) =
      (m.execute syms { op := .lda, mode := .immediate, value := num, width }).map
        (.running, ·) :=
    Option.bind_fun_some _
  rcases ways with rfl | rfl
  · rw [← List.singleton_append, runCode_append, if_pos rfl, loads]
    cases m.execute syms _ with
    | none => rfl
    | some mid =>
      change (some (if yes = done then _ else _, mid)).bind (runCode syms [_, _]) = _
      rw [if_neg different]
      change some (if done = done then Control.running else .seeking done, mid) = _
      rw [if_pos rfl]
      rfl
  · change (some (if yes = yes then _ else _, m)).bind
      (runCode syms ([.immediate .lda 1 width] ++ [.label done])) = _
    rw [if_pos rfl, Option.bind_some, runCode_append, if_neg nofun, loads]
    cases m.execute syms _ <;> rfl

/-- The comparison is made without loading an operand into the accumulator. -/
def ComparesInPlace (context : SelectionContext) (left : VReg) (right : Value) (width : Width) :
    Prop :=
  context.places left = .reg .a ∨
    (context.places left).isIndexReg = true ∧ ∀ register, right = .reg register →
      (context.places register).isReg = true ∨
        width = .word ∧ (context.places register).isIndexable = true

section

variable (kept : Kept ctx mask start cur state point)
include kept

theorem Kept.compareIndexWithAccumulator (op : Op) (reaches : op.reaches .direct = true)
    (inside : op.Inside mask ctx.graph.mode cur) :
    kept.Ends syms (Select.compareIndexWithAccumulator op width) := by
  unfold Ends Select.compareIndexWithAccumulator
  refine .look rfl ?_
  refine (kept.emit_one (steady_direct .sta rfl trivial)).andThen fun kept => ?_
  split
  · refine (kept.emit_one (steady_direct .stz rfl trivial)).andThen fun kept => ?_
    exact (kept.emit_one (steady_direct op reaches inside)).ended
  · exact (kept.emit_one (steady_direct op reaches inside)).ended

theorem Kept.compareIndex {hw : Reg}
    (takes : mask.TakesAccumulator ctx.graph.mode mode ∨ ∀ reg, right = .reg reg →
      (ctx.places reg).isReg = true ∨ mode.width = .word ∧ (ctx.places reg).isIndexable = true) :
    kept.Ends syms (Select.compareIndex hw right mode.width) := by
  have direct : hw.compareOp.reaches .direct = true := by cases hw <;> rfl
  have absolute : hw.compareOp.reaches .absolute = true := by cases hw <;> rfl
  have inside (cur : Mode) : hw.compareOp.Inside mask ctx.graph.mode cur := by
    cases hw <;> trivial
  unfold Ends Select.compareIndex
  dsimp only
  cases right with
  | imm num =>
    have reads : hw.compareOp.reads cur = some .wide := by cases hw <;> rfl
    exact (kept.emit_one (steady_immediate _ reads rfl (inside _))).ended
  | reg reg =>
    dsimp only
    rw [ensures_place]
    split
    · exact (kept.emit (.cons (steady_direct .stx rfl trivial)
        (.single (steady_direct _ direct (inside _))))).ended
    · exact (kept.emit (.cons (steady_direct .sty rfl trivial)
        (.single (steady_direct _ direct (inside _))))).ended
    · exact (kept.setAccumulator mode).andThen fun kept =>
        kept.compareIndexWithAccumulator _ direct (inside _)
    · next notX notY notA =>
      split
      · next short =>
        refine (kept.memory _ (fun _ names => ?_) (inside _)).ended
        exact names.reaches short.2 direct absolute
      · next long =>
        refine (kept.setAccumulator mode).andThen fun kept => ?_
        by_cases fromB : ctx.places reg = .reg .b
        · refine .bind ?_
          unfold Select.loadAccumulator
          rw [ensures_place, fromB]
          exact ensures_fail trivial
        · have takes := takes.resolve_right fun inPlace =>
            (inPlace reg rfl).elim (fun isReg => by
                rcases Loc.eq_of_isReg isReg with h | h | h | h <;> contradiction)
              long
          refine (kept.loadAccumulator (.inr takes)).andThen fun kept => ?_
          exact kept.compareIndexWithAccumulator _ direct (inside _)

theorem Kept.compare {left : VReg} (takes : mask.TakesAccumulator ctx.graph.mode mode ∨
      ComparesInPlace ctx left right mode.width) :
    kept.Ends syms (Select.compare left right mode.width) := by
  unfold Ends Select.compare
  rw [ensures_place]
  split
  · next loc =>
    refine kept.compareIndex (takes.imp_right fun inPlace => ?_)
    exact (inPlace.resolve_left (by rw [loc]; nofun)).2
  · next loc =>
    refine kept.compareIndex (takes.imp_right fun inPlace => ?_)
    exact (inPlace.resolve_left (by rw [loc]; nofun)).2
  · next notX notY =>
    refine (kept.setAccumulator mode).andThen fun kept => ?_
    have inside : Op.cmp.Inside mask ctx.graph.mode mode := trivial
    refine (kept.operand (fun _ => rfl) rfl inside).andThen fun {instr _ _} both => ?_
    obtain ⟨kept, steady⟩ := both
    refine (kept.loadAccumulator ?_).andThen fun kept => (kept.emit_one steady).ended
    refine takes.symm.imp_left fun inPlace => inPlace.resolve_right fun indexed => ?_
    grind

end

/-- Behind a branch, control is at the next part or on its way to the label. -/
def Chosen (context : SelectionContext) (mask : RegMask) (start : Machine) (label : String)
    (state : SelectionState) (point : MachinePoint) : Prop :=
  (point.1 = .running ∨ point.1 = .seeking label) ∧
    Kept context mask start context.graph.mode state (.running, point.2)

variable (kept : Kept ctx mask start ctx.graph.mode state point)

include kept in
theorem Kept.branchOn : Ensures syms ctx True (Select.branchOn cond label)
      (fun _ => Chosen ctx mask start label) state point := by
  obtain ⟨control, m⟩ := point
  obtain ⟨acc, rfl, mode_eq, same⟩ := kept
  exact ensures_branchOn fun _ _ _ ways _ => ⟨ways, acc, rfl, mode_eq, same⟩

theorem Comparison.right_eq_of_test {tested : Cond} {reg : VReg}
    (test : Comparison.ofCond cond right width = .test tested (.reg reg)) : right = .reg reg := by
  cases right with
  | reg other =>
    cases test
    rfl
  | imm num =>
    unfold Comparison.ofCond at test
    grind

include kept in
theorem Kept.compareBranch {left : VReg} (width_eq : ctx.graph.width left = mode.width)
    (takes : mask.TakesAccumulator ctx.graph.mode mode ∨
      ComparesInPlace ctx left right mode.width) :
    Ensures syms ctx True (Select.compareBranch cond left right label)
      (fun _ => Chosen ctx mask start label) state point := by
  unfold Select.compareBranch
  rw [ensures_widthOf, width_eq]
  split
  · obtain ⟨control, m⟩ := point
    obtain ⟨acc, rfl, mode_eq, same⟩ := kept
    exact ensures_emit rfl ⟨.inr rfl, acc, rfl, mode_eq, same⟩
  · exact ensures_pure ⟨.inl kept.running, kept.accumulator, rfl, kept.mode_eq, kept.same⟩
  · next tested test =>
    refine (kept.compare (takes.imp_right ?_)).andThen fun ended => ?_
    · rintro (inAccumulator | ⟨indexed, inPlace⟩)
      · exact .inl inAccumulator
      · exact .inr ⟨indexed, fun reg right_eq =>
          inPlace reg (Comparison.right_eq_of_test (right_eq ▸ test))⟩
    · obtain ⟨cur, kept⟩ := ended
      exact (kept.setAccumulator ctx.graph.mode).andThen fun kept => kept.branchOn

theorem Chosen.answer (chosen : Chosen ctx mask start yes state point) (different : yes ≠ done)
    (takes : mask.TakesAccumulator ctx.graph.mode ctx.graph.mode) :
    Ensures syms ctx True
      (Select.emit [.immediate .lda 0 ctx.graph.mode.width.bytes, .branch .bra done, .label yes,
        .immediate .lda 1 ctx.graph.mode.width.bytes, .label done])
      (fun _ => Kept ctx mask start ctx.graph.mode) state point := by
  obtain ⟨ways, kept⟩ := chosen
  have loads (num : Int) : KeepsOutside syms mask ctx.graph.mode ctx.graph.mode
      [.immediate .lda num ctx.graph.mode.width.bytes] :=
    .single (steady_immediate .lda rfl rfl takes)
  obtain ⟨after, runs, mode_eq, same⟩ := loads _ point.2 kept.mode_eq
  exact ensures_emit ((runs_answer different ways _).trans runs)
    ⟨kept.accumulator, rfl, mode_eq, kept.same.trans same⟩

theorem Kept.setCond {target left : VReg} (suits : ctx.Suits (target :: left :: right.registers))
    (mask_eq : mask = ctx.graph.writes ctx.places (.setCond cond target left right)) :
    kept.Ends syms (Select.setCond cond target left right) := by
  obtain ⟨mode, width_eq⟩ := suits.mode target (by simp)
  obtain ⟨leftMode, left_eq⟩ := suits.mode left (by simp)
  rw [Graph.writes, left_eq] at mask_eq
  have takes : mask.TakesAccumulator ctx.graph.mode leftMode := by
    rw [mask_eq]
    exact ((takesAccumulator_writes ..).mono has_union_left).mono has_union_left
  have own : mask.TakesAccumulator ctx.graph.mode ctx.graph.mode :=
    ⟨takes.1, fun wide => by rw [wide]; exact takes.1⟩
  unfold Ends Select.setCond
  rw [ensures_freshLabel, ensures_freshLabel]
  have kept (labels : Nat) : Kept ctx mask start ctx.graph.mode { state with labels } point :=
    ⟨kept.accumulator, kept.running, kept.mode_eq, kept.same⟩
  refine ((kept _).compareBranch left_eq (.inl takes)).andThen fun {_ state point} chosen => ?_
  refine .look rfl ?_
  rw [chosen.2.accumulator]
  refine (chosen.answer (answer_ne_done _ _ _) own).andThen fun kept => ?_
  rw [ensures_widthOf, width_eq]
  refine (kept.setAccumulator mode).andThen fun kept => ?_
  exact (kept.storeAccumulator (has_union mask_eq)).ended

/-! ## Ends of blocks -/

/-- Control has left the block, and the registers outside the set are as they were. -/
def Left (context : SelectionContext) (mask : RegMask) (start : Machine) (point : MachinePoint) :
    Prop :=
  point.2.mode = context.graph.mode ∧ start.SameOutside context.graph.mode mask point.2

theorem Chosen.left (chosen : Chosen ctx mask start label state point) :
    Left ctx mask start point :=
  ⟨chosen.2.mode_eq, chosen.2.same⟩

theorem takes_branchWrites {left : VReg} (width_eq : ctx.graph.width left = mode.width) :
    (ctx.graph.terminatorWrites ctx.places
        (.branch cond left right thenBlock elseBlock)).TakesAccumulator ctx.graph.mode mode ∨
      ComparesInPlace ctx left right mode.width := by
  have compared := takesAccumulator_writes ctx.graph.mode mode
  unfold Graph.terminatorWrites
  dsimp only
  rw [width_eq]
  split
  · next inAccumulator => exact .inr (.inl inAccumulator)
  split
  · next indexed =>
    cases right with
    | imm num => exact .inr (.inr ⟨indexed, nofun⟩)
    | reg other =>
      dsimp only
      split
      · next inPlace => exact .inr (.inr ⟨indexed, fun _ same => by cases same; exact inPlace⟩)
      · exact .inl compared
  · exact .inl compared

include kept in
theorem Kept.branch {left : VReg} (suits : ctx.Suits (left :: right.registers))
    (mask_eq : mask = ctx.graph.terminatorWrites ctx.places
      (.branch cond left right thenBlock elseBlock)) :
    Ensures syms ctx True (Select.terminator id (.branch cond left right thenBlock elseBlock))
      (fun _ _ => Left ctx mask start) state point := by
  obtain ⟨mode, width_eq⟩ := suits.mode left (by simp)
  have takes : mask.TakesAccumulator ctx.graph.mode mode ∨
      ComparesInPlace ctx left right mode.width :=
    mask_eq ▸ takes_branchWrites width_eq
  have compared (cond : Cond) (label : String) :
      Ensures syms ctx True (.compareBranch cond left right label)
        (fun _ => Chosen ctx mask start label) state point :=
    kept.compareBranch width_eq takes
  unfold Select.terminator
  refine .look rfl ?_
  dsimp only
  split
  · exact (compared _ _).mono fun _ _ _ chosen => chosen.left
  · refine (compared _ _).andThen fun {_ state point} chosen => ?_
    split
    · obtain ⟨control, m⟩ := point
      obtain ⟨ways, kept⟩ := chosen
      rcases ways with rfl | rfl <;> exact ensures_emit rfl ⟨kept.mode_eq, kept.same⟩
    · exact ensures_pure chosen.left

include kept in
theorem Kept.jumpTable {idx : VReg} {targets : List BlockId}
    (mask_eq : mask = ctx.graph.terminatorWrites ctx.places (.jumpTable idx targets)) :
    Ensures syms ctx True (Select.jumpTable idx targets)
      (fun _ _ => Left ctx mask start) state point := by
  have takes : mask.TakesAccumulator ctx.graph.mode .wide :=
    mask_eq ▸ (takesAccumulator_writes _ .wide).mono has_union_left
  have has : mask.has .x = true := mask_eq ▸ has_union_right .x rfl
  unfold Select.jumpTable
  refine .look rfl (.look rfl ?_)
  refine (ensures_modify rfl ?_).bind
  have kept (tables : List DataTable) :
      Kept ctx mask start ctx.graph.mode { state with tables } point :=
    ⟨kept.accumulator, kept.running, kept.mode_eq, kept.same⟩
  refine ((kept _).loadExtended takes).andThen fun kept => ?_
  refine (kept.emit (.cons (steady_plain .asl rfl takes)
    (.single (steady_plain .tax rfl has)))).andThen fun kept => ?_
  refine .look rfl ((kept.setAccumulator ctx.graph.mode).andThen fun {_ state point} kept => ?_)
  obtain ⟨control, m⟩ := point
  obtain ⟨acc, rfl, mode_eq, same⟩ := kept
  exact ensures_emit rfl ⟨mode_eq, same⟩

end Choices

end Select

/-! ## Write sets -/

def Terminator.operands : Terminator → List VReg
  | jump _ => []
  | branch _ left right _ _ => left :: right.registers
  | jumpTable index _ => [index]
  | giveBack values => values

def Terminator.isChoice : Terminator → Bool
  | branch _ _ _ _ _ | jumpTable _ _ => true
  | jump _ | giveBack _ => false

def Mode.registers : Mode → List Reg
  | narrow => [.a, .b, .x, .y]
  | wide => [.a, .x, .y]

def Machine.contents (machine : Machine) (mode : Mode) : Reg → Int
  | .a =>
    match mode with
    | .narrow => machine.a.toNat
    | .wide => machine.whole
  | .b => machine.b.toNat
  | .x => machine.x.toNat
  | .y => machine.y.toNat

theorem Machine.SameOutside.contents_eq {mode : Mode} {mask : RegMask} {before after : Machine}
    (same : before.SameOutside mode mask after) {reg : Reg} (mem : reg ∈ mode.registers)
    (outside : mask.has reg = false) : after.contents mode reg = before.contents mode reg := by
  cases reg with
  | a =>
    cases mode with
    | narrow => rw [contents, contents, same.a outside]
    | wide => rw [contents, contents, whole, whole, same.a outside, same.b outside]
  | b =>
    cases mode with
    | narrow => rw [contents, contents, same.b outside]
    | wide => simp [Mode.registers] at mem
  | x => rw [contents, contents, same.x outside]
  | y => rw [contents, contents, same.y outside]

namespace Select

variable {syms : String → Int} {ctx : SelectionContext} {start : Machine}
  {state : SelectionState} {point : MachinePoint}

section

variable {step : Action}
  (kept : Kept ctx (ctx.graph.writes ctx.places step) start ctx.graph.mode state point)
  (own : step.isCall = false) (suits : ctx.Suits step.operands)
include kept own suits

theorem Kept.action : Ensures syms ctx True (Select.action step)
      (fun _ => Ended ctx (ctx.graph.writes ctx.places step) start) state point := by
  cases step with
  | params targets => exact ensures_pure ⟨_, kept⟩
  | const target value => exact kept.const suits rfl
  | move target src => exact kept.move suits rfl
  | convert target src signed => exact kept.convert suits rfl
  | bin kind target left right noWrap => exact kept.bin suits rfl
  | un kind target src => exact kept.un suits rfl
  | setCond cond target left right => exact kept.setCond suits rfl
  | load target addr => exact kept.load suits rfl
  | store addr src => exact kept.store suits rfl
  | lookup target table idx => exact kept.lookup suits rfl
  | push src => exact kept.push suits rfl
  | call details | dispatch details => cases own

theorem Kept.actions {noOps : List (BlockId × Nat)} :
    Ensures syms ctx True (Select.actions noOps id [step])
      (fun _ => Kept ctx (ctx.graph.writes ctx.places step) start ctx.graph.mode)
      state point := by
  refine .andThen ?_ fun kept => ensures_pure kept
  dsimp only
  split
  · exact ensures_pure kept
  · refine (kept.action own suits).andThen fun ended => ?_
    obtain ⟨cur, kept⟩ := ended
    exact kept.setAccumulator ctx.graph.mode

end

theorem Kept.terminator {exit : Terminator}
    (kept : Kept ctx (ctx.graph.terminatorWrites ctx.places exit) start ctx.graph.mode state point)
    (choice : exit.isChoice = true) (suits : ctx.Suits exit.operands) :
    Ensures syms ctx True (Select.terminator id exit)
      (fun _ _ => Left ctx (ctx.graph.terminatorWrites ctx.places exit) start) state
      point := by
  cases exit with
  | branch cond left right thenBlock elseBlock => exact kept.branch suits rfl
  | jumpTable idx targets =>
    exact .look rfl (kept.jumpTable rfl)
  | jump target | giveBack vals => cases choice

def emitted (step : Select Unit) (context : SelectionContext) (state : SelectionState) :
    Except SelectionError (List Instr) :=
  ((step.run context).run state).map fun result => result.2.code.toList.drop state.code.size

theorem emitted_eq (step : Select Unit) : emitted step ctx state =
    (step ctx state).map fun res => res.2.code.toList.drop state.code.size := rfl

theorem Ensures.runs_emitted {code : List Instr}
    (ensures : Ensures syms ctx failing step goal state point)
    (selected : emitted step ctx state = .ok code) :
    ∃ final after, runCode syms code point = some after ∧ goal () final after := by
  rw [emitted_eq] at selected
  rcases ensures with ⟨_, final, appended, after, taken, code_eq, runs, reached⟩ | ⟨_, _, failed⟩
  all_goals grind [Except.map]

theorem Ensures.emits (ensures : Ensures syms ctx False step goal state point) :
    ∃ code, emitted step ctx state = .ok code := by
  rw [emitted_eq]
  obtain ⟨_, final, _, _, taken, _⟩ | ⟨impossible, _⟩ := ensures
  · rw [taken]
    exact ⟨_, rfl⟩
  · exact impossible.elim

end Select

/-- The accumulator has the width of the mode, and the registers outside a set have the contents
that they had. -/
def Machine.KeepsRegisters (before : Machine) (mode : Mode) (mask : RegMask) (after : Machine) :
    Prop :=
  after.mode = mode ∧ ∀ register ∈ mode.registers, mask.has register = false →
    after.contents mode register = before.contents mode register

/-- The code of an action changes no register outside the set that `Graph.writes` announces for it,
and control leaves it at its end. The code of a terminator that chooses a block changes none outside
the set of `Graph.terminatorWrites`. -/
theorem Select.code_inside_writes (symbols : String → Int) (context : SelectionContext)
    (state : SelectionState) (machine : Machine)
    (synced : state.accumulator = context.graph.mode.width)
    (at_mode : machine.mode = context.graph.mode) (noOps : List (BlockId × Nat)) (id : BlockId) :
    (∀ action code, action.isCall = false → context.Suits action.operands →
        emitted (actions noOps id [action]) context state = .ok code →
        ∃ after, runCode symbols code (.running, machine) = some (.running, after) ∧
          machine.KeepsRegisters context.graph.mode (context.graph.writes context.places action)
            after) ∧
      ∀ exit code, exit.isChoice = true → context.Suits exit.operands →
        emitted (terminator id exit) context state = .ok code →
        ∃ control after, runCode symbols code (.running, machine) = some (control, after) ∧
          machine.KeepsRegisters context.graph.mode
            (context.graph.terminatorWrites context.places exit) after := by
  have kept (mask : RegMask) :
      Kept context mask machine context.graph.mode state (.running, machine) :=
    ⟨synced, rfl, at_mode, .refl machine⟩
  constructor
  · intro action code own suits selected
    obtain ⟨final, ⟨control, after⟩, runs, ended⟩ :=
      ((kept _).actions own suits).runs_emitted selected
    obtain ⟨accumulator, rfl, mode_eq, same⟩ := ended
    exact ⟨after, runs, mode_eq, fun register mem outside => same.contents_eq mem outside⟩
  · intro exit code choice suits selected
    obtain ⟨final, ⟨control, after⟩, runs, mode_eq, same⟩ :=
      ((kept _).terminator choice suits).runs_emitted selected
    exact ⟨control, after, runs, mode_eq, fun register mem outside => same.contents_eq mem outside⟩

/-- A narrow function with a word in `y` and bytes in the accumulator and in `x`. -/
def crowdedContext : SelectionContext where
  graph :=
    { name := "f", blocks := #[{}, {}]
      vregs := #[{}, { width := .word }, { width := .byte }, { width := .byte }] }
  places register := if register = 1 then .reg .y else if register = 2 then .reg .a else .reg .x
  frameSize := 0
  signature := { name := "f" }
  settings := .standard

theorem crowdedContext_suits (regs : List VReg) (named : ∀ reg ∈ regs,
    reg = 1 ∨ reg = 2 ∨ reg = 3) : crowdedContext.Suits regs where
  mode reg mem := by
    rcases named reg mem with rfl | rfl | rfl
    · exact ⟨.wide, rfl⟩
    · exact ⟨.narrow, rfl⟩
    · exact ⟨.narrow, rfl⟩
  holds reg mem hw loc := by
    rcases named reg mem with rfl | rfl | rfl <;> cases loc <;> rfl

/-- Sign extension of the accumulator into `y` leaves `x` alone, and a comparison of `x` with the
accumulator changes no register. -/
theorem crowdedContext_code_inside_writes :
    let machine : Machine := ⟨0x80, 1, 2, 3, 0x1FF, 0, 0, .narrow, false, false, fun _ => 0⟩
    (∃ after, runCode (fun _ => 0)
        [.widenAccumulator, .immediate .and 0xFF 2, .immediate .eor 0x80 2, .plain .sec,
          .immediate .sbc 0x80 2, .plain .tay, .narrowAccumulator]
        (.running, machine) = some (.running, after) ∧
      machine.KeepsRegisters .narrow ⟨true, true, false, true⟩ after) ∧
    ∃ control after, runCode (fun _ => 0)
        [.direct .sta 8, .direct .stz 9, .direct .cpx 8, .branch .bcs "f_L0"]
        (.running, machine) = some (control, after) ∧
      machine.KeepsRegisters .narrow .empty after := by
  intro machine
  have inside := Select.code_inside_writes (fun _ => 0) crowdedContext { accumulator := .byte }
    machine rfl rfl [] 0
  exact ⟨inside.1 (.convert 1 2 true) _ rfl (crowdedContext_suits _ (by decide)) rfl,
    inside.2 (.branch .lt 3 (.reg 2) 1 0) _ rfl (crowdedContext_suits _ (by decide)) rfl⟩

end Backend65816
