import Backend65816.Placement.Writes
import Backend65816.Proofs.MachineRun

/-!
# Registers that instructions leave alone

In a wide function the accumulator is one register of 16 bits. In a narrow one its halves are
registers of their own, and an instruction on the widened accumulator changes both of them.
-/

namespace Backend65816

variable {after : Machine}

/-- The register that the high half of the accumulator belongs to. -/
def Mode.highHalf : Mode → Reg
  | narrow => .b
  | wide => .a

/-- The set has what an instruction on the accumulator of a width changes. -/
def RegMask.TakesAccumulator (mask : RegMask) (mode current : Mode) : Prop :=
  mask.has .a = true ∧ (current = .wide → mask.has mode.highHalf = true)

/-- The registers outside a set have the same contents in two states. -/
structure Machine.SameOutside (mode : Mode) (mask : RegMask) (before after : Machine) : Prop where
  a : mask.has .a = false → after.a = before.a
  b : mask.has mode.highHalf = false → after.b = before.b
  x : mask.has .x = false → after.x = before.x
  y : mask.has .y = false → after.y = before.y

namespace Machine

variable {mode : Mode} {mask : RegMask} {m : Machine}

section

variable (m)

theorem SameOutside.refl : m.SameOutside mode mask m :=
  ⟨fun _ => rfl, fun _ => rfl, fun _ => rfl, fun _ => rfl⟩

theorem SameOutside.trans {first second third : Machine}
    (early : first.SameOutside mode mask second) (late : second.SameOutside mode mask third) :
    first.SameOutside mode mask third where
  a outside := (late.a outside).trans (early.a outside)
  b outside := (late.b outside).trans (early.b outside)
  x outside := (late.x outside).trans (early.x outside)
  y outside := (late.y outside).trans (early.y outside)

theorem SameOutside.mono {wider : RegMask} {before : Machine}
    (same : before.SameOutside mode mask after)
    (subset : ∀ reg, mask.has reg = true → wider.has reg = true) :
    before.SameOutside mode wider after := by
  have outside {reg : Reg} (absent : wider.has reg = false) : mask.has reg = false := by
    grind
  exact ⟨fun absent => same.a (outside absent), fun absent => same.b (outside absent),
    fun absent => same.x (outside absent), fun absent => same.y (outside absent)⟩

/-! ## Parts of instructions -/

@[simp]
theorem setAccumulator_mode (num : Int) : (m.setAccumulator num).mode = m.mode := by
  unfold setAccumulator
  split <;> rfl

@[simp]
theorem setAccumulator_x (num : Int) : (m.setAccumulator num).x = m.x := by
  unfold setAccumulator
  split <;> rfl

@[simp]
theorem setAccumulator_y (num : Int) : (m.setAccumulator num).y = m.y := by
  unfold setAccumulator
  split <;> rfl

end

theorem setAccumulator_b (narrow : m.mode = .narrow) (num : Int) :
    (m.setAccumulator num).b = m.b := by
  unfold setAccumulator
  rw [narrow]

theorem sameOutside_of_setAccumulator {num : Int} (takes : mask.TakesAccumulator mode m.mode)
    (b : after.b = (m.setAccumulator num).b) (x : after.x = (m.setAccumulator num).x)
    (y : after.y = (m.setAccumulator num).y) : m.SameOutside mode mask after where
  a outside := by rw [takes.1] at outside; cases outside
  b outside := by
    cases cur : m.mode with
    | narrow => rw [b, setAccumulator_b cur]
    | wide => rw [takes.2 cur] at outside; cases outside
  x _ := by rw [x, setAccumulator_x]
  y _ := by rw [y, setAccumulator_y]

theorem sameOutside_of_setX (has : mask.has .x = true) (a : after.a = m.a)
    (b : after.b = m.b) (y : after.y = m.y) : m.SameOutside mode mask after :=
  ⟨fun _ => a, fun _ => b, fun outside => absurd outside (by simp [has]), fun _ => y⟩

theorem sameOutside_of_setY (has : mask.has .y = true) (a : after.a = m.a)
    (b : after.b = m.b) (x : after.x = m.x) : m.SameOutside mode mask after :=
  ⟨fun _ => a, fun _ => b, fun _ => x, fun outside => absurd outside (by simp [has])⟩

end Machine

/-! ## Instructions -/

def AddressMode.isMemory : AddressMode → Bool
  | direct | absolute | absoluteX | absoluteY | long | longX | stackRelative | indirect => true
  | _ => false

def Op.result : Op → Option Reg
  | lda | adc | sbc | and | ora | eor | inc | asl | lsr | ror | txa | tya | pla => some .a
  | ldx | tax | tyx | inx => some .x
  | ldy | tay | txy | iny => some .y
  | _ => none

/-- The set has the register that an instruction changes, for an accumulator of a width. -/
def Op.Inside (op : Op) (mask : RegMask) (mode current : Mode) : Prop :=
  match op.result with
  | some .a => mask.TakesAccumulator mode current
  | some register => mask.has register = true
  | none => True

/-- The size of the operand that an instruction reads, for an accumulator of a width. -/
def Op.reads (op : Op) (current : Mode) : Option Mode :=
  match op with
  | lda | adc | sbc | and | ora | eor | cmp => some current
  | ldx | ldy | cpx | cpy => some .wide
  | _ => none

/-- The machine has the instruction, for an accumulator of a width. Those that exchange or switch
the halves of the accumulator are left out. -/
def Operation.fits (operation : Operation) (current : Mode) : Bool :=
  match operation.mode with
  | .implied =>
    match operation.op with
    | .inc | .inx | .iny | .asl | .lsr | .ror | .clc | .sec | .tax | .tay | .txa | .tya | .txy
    | .tyx | .pha | .phx | .phy | .pla => true
    | _ => false
  | .immediate => (operation.op.reads current).any (operation.width = ·.width.bytes)
  | mode => mode.isMemory && operation.op.reaches mode

namespace Machine

variable {syms : String → Int} {mode cur : Mode} {mask : RegMask} {m : Machine}
  {op : Operation}

theorem perform_frame (inside : op.op.Inside mask mode m.mode)
    (fits : op.fits m.mode = true) (implied : op.mode = .implied) :
    ∃ after, m.perform op.op = some after ∧ after.mode = m.mode ∧
      m.SameOutside mode mask after := by
  rw [Operation.fits, implied] at fits
  cases op_eq : op.op with
  | inc | asl | lsr | ror | txa | tya =>
    rw [op_eq] at inside
    exact ⟨_, rfl, setAccumulator_mode .., sameOutside_of_setAccumulator inside rfl rfl rfl⟩
  | inx | tax | tyx =>
    rw [op_eq] at inside
    exact ⟨_, rfl, rfl, sameOutside_of_setX inside rfl rfl rfl⟩
  | iny | tay | txy =>
    rw [op_eq] at inside
    exact ⟨_, rfl, rfl, sameOutside_of_setY inside rfl rfl rfl⟩
  | clc | sec | phx | phy =>
    exact ⟨_, rfl, rfl, fun _ => rfl, fun _ => rfl, fun _ => rfl, fun _ => rfl⟩
  | pha =>
    refine ⟨_, rfl, ?_⟩
    unfold pushAccumulator
    split <;> exact ⟨rfl, fun _ => rfl, fun _ => rfl, fun _ => rfl, fun _ => rfl⟩
  | pla =>
    rw [op_eq] at inside
    refine ⟨_, rfl, ?_⟩
    unfold pullAccumulator
    split <;> exact ⟨setAccumulator_mode .., sameOutside_of_setAccumulator inside rfl rfl rfl⟩
  | _ => rw [op_eq] at fits; cases fits

theorem span?_of_isMemory (syms : String → Int) (m : Machine) (mem : op.mode.isMemory = true) :
    ∃ span, m.span? syms op = some span := by
  unfold span?
  cases mode : op.mode with
  | direct | absolute | absoluteX | absoluteY | long | longX | stackRelative | indirect =>
    exact ⟨_, rfl⟩
  | _ => rw [mode] at mem; cases mem

section

variable (fits : op.fits cur = true) (operand : op.mode ≠ .implied)
include fits operand

theorem fits_cases : (op.mode = .immediate ∧
        (op.op.reads cur).any (op.width = ·.width.bytes) = true) ∨
      op.mode ≠ .immediate ∧ op.mode.isMemory = true ∧ op.op.reaches op.mode = true := by
  unfold Operation.fits at fits
  grind

theorem fetch?_of_fits {read : Mode} (reads : op.op.reads cur = some read) :
    ∃ num, m.fetch? syms op read = some num := by
  rcases fits_cases fits operand with ⟨immediate, sized⟩ | ⟨not_immediate, mem, reaches⟩
  · simp_all [fetch?]
  · obtain ⟨span, span_eq⟩ := span?_of_isMemory syms m mem
    simp_all [fetch?]

theorem put?_of_fits (reads : op.op.reads cur = none) (size : Mode) (num : Int) :
    ∃ mem, m.put? syms op size num = some { m with memory := mem } := by
  rcases fits_cases fits operand with ⟨immediate, sized⟩ | ⟨not_immediate, mem, reaches⟩
  · rw [reads] at sized
    cases sized
  · obtain ⟨span, span_eq⟩ := span?_of_isMemory syms m mem
    simp_all [put?]

end

variable (syms)

theorem access_frame (inside : op.op.Inside mask mode m.mode) (fits : op.fits m.mode = true)
    (operand : op.mode ≠ .implied) : ∃ after, m.access syms op = some after ∧ after.mode = m.mode ∧
      m.SameOutside mode mask after := by
  unfold access
  cases op_eq : op.op with
  | lda | adc | sbc | and | ora | eor =>
    obtain ⟨num, fetched⟩ := fetch?_of_fits fits operand (by rw [op_eq]; rfl)
    rw [op_eq] at inside
    rw [fetched]
    exact ⟨_, rfl, setAccumulator_mode .., sameOutside_of_setAccumulator inside rfl rfl rfl⟩
  | ldx | ldy =>
    obtain ⟨num, fetched⟩ := fetch?_of_fits fits operand (by rw [op_eq]; rfl)
    rw [op_eq] at inside
    rw [fetched]
    refine ⟨_, rfl, rfl, ?_⟩
    first
    | exact sameOutside_of_setX inside rfl rfl rfl
    | exact sameOutside_of_setY inside rfl rfl rfl
  | cmp | cpx | cpy =>
    obtain ⟨num, fetched⟩ := fetch?_of_fits fits operand (by rw [op_eq]; rfl)
    rw [fetched]
    exact ⟨_, rfl, rfl, fun _ => rfl, fun _ => rfl, fun _ => rfl, fun _ => rfl⟩
  | sta | stx | sty | stz =>
    obtain ⟨mem, stored⟩ := put?_of_fits fits operand (by rw [op_eq]; rfl) _ _
    exact ⟨_, stored, rfl, fun _ => rfl, fun _ => rfl, fun _ => rfl, fun _ => rfl⟩
  | _ =>
    rcases fits_cases fits operand with ⟨_, sized⟩ | ⟨_, _, reaches⟩
    · rw [op_eq] at sized
      cases sized
    · rw [op_eq] at reaches
      cases reaches

/-- An instruction that the machine has leads on, keeps the width of the accumulator and changes no
register but its own. -/
theorem advance_frame (inside : op.op.Inside mask mode m.mode) (fits : op.fits m.mode = true) :
    ∃ after, op.advance syms m = some (.running, after) ∧
      after.mode = m.mode ∧ m.SameOutside mode mask after := by
  have passed : op.advance syms m = (m.execute syms op).map (Control.running, ·) := by
    unfold Operation.advance
    cases mode_eq : op.mode with
    | relative | indexedIndirect =>
      rw [Operation.fits, mode_eq] at fits
      cases fits
    | _ => rfl
  rw [passed, execute]
  by_cases implied : op.mode = .implied
  · obtain ⟨after, performed, rest⟩ := perform_frame inside fits implied
    simp_all
  · obtain ⟨after, accessed, rest⟩ := access_frame syms inside fits implied
    simp_all

end Machine

end Backend65816
