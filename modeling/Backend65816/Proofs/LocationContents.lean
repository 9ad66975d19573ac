import Backend65816.Proofs.SelectionFrame

/-!
# Contents of locations

What the machine holds in the location of a virtual register. A byte in an index register is
zero-extended. A location gets a number while nothing else changes in memory but the temporary bytes
of the direct page.
-/

namespace Backend65816

open Int Memory Span

variable {after : Machine}

variable {span : Span}

/-! ## Memory -/

theorem Width.holds_toNat {byte : BitVec 8} : Width.byte.Holds byte.toNat := by
  change (byte.toNat : Int) % 0x100 = byte.toNat
  omega

theorem Width.holds_joined {low high : BitVec 8} : Width.word.Holds (joined low high) :=
  Width.holds_iff.mpr ⟨joined_nonneg, joined_lt⟩

theorem Span.byte_one_ne (several : 2 ≤ span.space) : span.byte 1 ≠ span.byte 0 := by
  intro same
  have dvd : span.space ∣ span.start + 1 - (span.start + 0) :=
    dvd_of_emod_eq_zero (emod_eq_emod_iff_emod_sub_eq_zero.mp same)
  have := le_of_dvd (by omega) dvd
  omega

theorem Span.two_le_bankZero {start : Int} : 2 ≤ (bankZero start).space :=
  show (2 : Int) ≤ 0x10000 by decide

namespace Memory

variable {mem other : Memory} {mode : Mode} {num : Int}

theorem holds_read (mem : Memory) (span : Span) (mode : Mode) :
    mode.width.Holds (mem.read span mode) := by
  cases mode with
  | narrow => exact Width.holds_toNat
  | wide => exact Width.holds_joined

theorem read_congr (same : ∀ addr, span.Covers mode.width addr →
    other addr = mem addr) : other.read span mode = mem.read span mode := by
  have first : other (span.byte 0) = mem (span.byte 0) :=
    same _ ⟨0, by omega, by cases mode <;> decide, rfl⟩
  cases mode with
  | narrow => rw [read, read, first]
  | wide =>
    have second : other (span.byte 1) = mem (span.byte 1) := same _ ⟨1, by omega, by decide, rfl⟩
    rw [read, read, first, second]

theorem read_narrow (mem : Memory) (span : Span) :
    mem.read span .narrow = Width.byte.truncate (mem.read span .wide) := by
  change ((mem (span.byte 0)).toNat : Int) = joined (mem (span.byte 0)) (mem (span.byte 1)) % 0x100
  unfold joined
  omega

theorem write_of_not_covers {addr : Int} (outside : ¬span.Covers mode.width addr) :
    mem.write span mode num addr = mem addr := by
  rw [write, if_neg, if_neg]
  · rintro ⟨rfl, rfl⟩
    exact outside ⟨1, by omega, by decide, rfl⟩
  · rintro rfl
    exact outside ⟨0, by omega, by cases mode <;> decide, rfl⟩

variable (mem)

theorem read_write (several : 2 ≤ span.space) :
    (mem.write span mode num).read span mode = mode.width.truncate num := by
  have first : mem.write span mode num (span.byte 0) = lowByte num := if_pos rfl
  cases mode with
  | narrow =>
    rw [read, first]
    exact toNat_lowByte num
  | wide =>
    have second : mem.write span .wide num (span.byte 1) = highByte num := by
      rw [write, if_neg (byte_one_ne several), if_pos ⟨rfl, rfl⟩]
    rw [read, first, second]
    exact joined_lowByte_highByte num

theorem read_write_wide (several : 2 ≤ span.space) (mode : Mode) (num : Int) :
    (mem.write span .wide num).read span mode = mode.width.truncate num := by
  cases mode with
  | narrow =>
    rw [read_narrow, read_write mem several]
    exact emod_emod_of_dvd num (by decide)
  | wide => exact read_write mem several

theorem read_extended (start num : Int) :
    ((mem.write (.bankZero start) .narrow num).write (.bankZero (start + 1)) .narrow 0).read
        (.bankZero start) .wide = Width.byte.truncate num := by
  have next : (bankZero start).byte 1 = (bankZero (start + 1)).byte 0 := by
    simp [byte, bankZero]
  have apart : (bankZero start).byte 0 ≠ (bankZero (start + 1)).byte 0 := by
    rw [← next]
    exact (byte_one_ne two_le_bankZero).symm
  rw [read, next]
  simp only [write, if_neg apart, if_true, reduceCtorEq, false_and, if_false]
  have zero : (lowByte 0).toNat = 0 := rfl
  have low := toNat_lowByte num
  rw [joined]
  change _ = num % 0x100
  omega

end Memory

/-! ## The accumulator -/

namespace Machine

variable {m : Machine} {num : Int}

section

variable (m)

variable (num)

@[simp]
theorem setAccumulator_direct : (m.setAccumulator num).direct = m.direct := by
  unfold setAccumulator
  split <;> rfl

@[simp]
theorem setAccumulator_stack : (m.setAccumulator num).stack = m.stack := by
  unfold setAccumulator
  split <;> rfl

@[simp]
theorem setAccumulator_bank : (m.setAccumulator num).bank = m.bank := by
  unfold setAccumulator
  split <;> rfl

@[simp]
theorem setAccumulator_memory : (m.setAccumulator num).memory = m.memory := by
  unfold setAccumulator
  split <;> rfl

end

theorem setAccumulator_of_narrow (narrow : m.mode = .narrow) (num : Int) :
    m.setAccumulator num = { m with a := lowByte num, zero := lowByte num = 0 } := by
  rw [setAccumulator, narrow]

theorem accumulator_setAccumulator (m : Machine) (num : Int) :
    (m.setAccumulator num).accumulator = m.mode.width.truncate num := by
  cases mode : m.mode with
  | narrow =>
    rw [setAccumulator, mode]
    exact toNat_lowByte num
  | wide =>
    rw [setAccumulator, mode]
    exact joined_lowByte_highByte num

theorem holds_accumulator (machine : Machine) : machine.mode.width.Holds machine.accumulator := by
  unfold accumulator
  cases machine.mode with
  | narrow => exact Width.holds_toNat
  | wide => exact Width.holds_joined

/-- The accumulator has got a number, and what other places hold is as it was. -/
structure Carries (before : Machine) (number : Int) (after : Machine) : Prop where
  accumulator : after.accumulator = number
  x : after.x = before.x
  y : after.y = before.y
  mode : after.mode = before.mode
  direct : after.direct = before.direct
  stack : after.stack = before.stack
  bank : after.bank = before.bank
  memory : after.memory = before.memory

theorem carries_self (m : Machine) : m.Carries m.accumulator m :=
  ⟨rfl, rfl, rfl, rfl, rfl, rfl, rfl, rfl⟩

theorem Carries.trans {mid : Machine} {between : Int} (first : m.Carries between mid)
    (second : mid.Carries num after) : m.Carries num after :=
  ⟨second.accumulator, second.x.trans first.x, second.y.trans first.y,
    second.mode.trans first.mode, second.direct.trans first.direct,
    second.stack.trans first.stack, second.bank.trans first.bank, second.memory.trans first.memory⟩

theorem carries_setAccumulator (m : Machine) (num : Int) :
    m.Carries (m.mode.width.truncate num) (m.setAccumulator num) :=
  ⟨accumulator_setAccumulator m num, setAccumulator_x .., setAccumulator_y ..,
    setAccumulator_mode .., setAccumulator_direct .., setAccumulator_stack ..,
    setAccumulator_bank .., setAccumulator_memory ..⟩

theorem carries_of_holds (holds : m.mode.width.Holds num) :
    m.Carries num (m.setAccumulator num) := by
  have carries := m.carries_setAccumulator num
  rwa [holds] at carries

theorem Carries.withFlags (carries : m.Carries num after)
    {carry zero : Bool} : m.Carries num { after with carry, zero } :=
  ⟨carries.accumulator, carries.x, carries.y, carries.mode, carries.direct, carries.stack,
    carries.bank, carries.memory⟩

end Machine

/-! ## Locations -/

/-- The machine with a number in an index register. -/
def Machine.setIndex (machine : Machine) : Reg → Int → Machine
  | .y => machine.setY
  | _ => machine.setX

def Machine.value (machine : Machine) (width : Mode) : Reg → Int
  | .a =>
    match width with
    | .narrow => machine.a.toNat
    | .wide => machine.whole
  | .b => machine.b.toNat
  | .x => width.width.truncate machine.x.toNat
  | .y => width.width.truncate machine.y.toNat

/-- A value of the width in an index register has no bits above the width. -/
def Machine.ZeroExtended (machine : Machine) (width : Mode) (location : Loc) : Prop :=
  (location = .reg .x → (machine.x.toNat : Int) < width.width.modulus) ∧
    (location = .reg .y → (machine.y.toNat : Int) < width.width.modulus)

namespace Machine.ZeroExtended

variable {m : Machine} {width : Mode} {loc : Loc}

theorem holds_x (extended : m.ZeroExtended width loc) (inX : loc = .reg .x) :
    width.width.Holds m.x.toNat :=
  Width.holds_iff.mpr ⟨natCast_nonneg _, extended.1 inX⟩

theorem holds_y (extended : m.ZeroExtended width loc) (inY : loc = .reg .y) :
    width.width.Holds m.y.toNat :=
  Width.holds_iff.mpr ⟨natCast_nonneg _, extended.2 inY⟩

end Machine.ZeroExtended

namespace SelectionContext

variable (context : SelectionContext) (symbols : String → Int) (depth : Int)

def contents (machine : Machine) (width : Mode) : Loc → Int
  | .reg hardware => machine.value width hardware
  | location =>
    match context.span? symbols depth machine location with
    | some span => machine.memory.read span width
    | none => 0

/-- The address is one of a value of the width in a location. -/
def Covers (machine : Machine) (width : Mode) (location : Loc) (address : Int) : Prop :=
  ∃ span, context.span? symbols depth machine location = some span ∧
    span.Covers width.width address

def IsTemporary (machine : Machine) (address : Int) : Prop :=
  ∃ index : Int, 0 ≤ index ∧ index < 8 ∧
    address = (bankZero (machine.direct.toNat + context.settings.tempBase)).byte index

/-- Memory outside the temporary bytes is as it was, and locations are where they were. -/
structure Undisturbed (context : SelectionContext) (before after : Machine) : Prop where
  direct : after.direct = before.direct
  stack : after.stack = before.stack
  bank : after.bank = before.bank
  memory : ∀ address, ¬context.IsTemporary before address →
    after.memory address = before.memory address

end SelectionContext

theorem Machine.Carries.undisturbed {ctx : SelectionContext} {before : Machine}
    {num : Int} (carries : before.Carries num after) : ctx.Undisturbed before after :=
  ⟨carries.direct, carries.stack, carries.bank, fun _ _ => by rw [carries.memory]⟩

namespace SelectionContext

variable {ctx : SelectionContext} {syms : String → Int} {depth : Int} {before mid : Machine}
  {width : Mode} {loc : Loc} {num : Int}

theorem two_le_space (span_eq : ctx.span? syms depth before loc = some span) : 2 ≤ span.space := by
  cases loc with
  | nowhere | reg hw => cases span_eq
  | _ =>
    cases span_eq
    simp [bankZero, anyBank]

theorem contents_of_span? (span_eq : ctx.span? syms depth before loc = some span) :
    ctx.contents syms depth before width loc = before.memory.read span width := by
  cases loc with
  | nowhere | reg hw => cases span_eq
  | _ =>
    cases span_eq
    rfl

/-- Contents are values of the width. The high half of the accumulator is a byte, also as a word. -/
theorem holds_contents (ctx : SelectionContext) (syms : String → Int) (depth : Int) (m : Machine)
    (width : Mode) (loc : Loc) : width.width.Holds (ctx.contents syms depth m width loc) := by
  cases span_eq : ctx.span? syms depth m loc with
  | some span =>
    rw [contents_of_span? span_eq]
    exact holds_read ..
  | none =>
    cases loc with
    | reg hw =>
      cases hw with
      | a =>
        cases width with
        | narrow => exact Width.holds_toNat
        | wide => exact Width.holds_joined
      | b =>
        obtain ⟨nonneg, below⟩ := Width.holds_iff.mp Width.holds_toNat
        have le : Width.byte.modulus ≤ width.width.modulus := by cases width <;> decide
        exact Width.holds_iff.mpr ⟨nonneg, lt_of_lt_of_le below le⟩
      | x | y => exact Width.holds_truncate ..
    | nowhere => exact Width.holds_zero _
    | _ => cases span_eq

theorem span?_congr (direct : after.direct = before.direct) (stack : after.stack = before.stack)
    (bank : after.bank = before.bank) :
    ctx.span? syms depth after loc = ctx.span? syms depth before loc := by
  unfold span?
  rw [direct, stack, bank]

theorem isTemporary_congr (direct : after.direct = before.direct) {addr : Int} :
    ctx.IsTemporary after addr ↔ ctx.IsTemporary before addr := by
  unfold IsTemporary
  rw [direct]

theorem Undisturbed.refl (m : Machine) : ctx.Undisturbed m m := ⟨rfl, rfl, rfl, fun _ _ => rfl⟩

theorem Undisturbed.trans (first : ctx.Undisturbed before mid)
    (second : ctx.Undisturbed mid after) : ctx.Undisturbed before after where
  direct := second.direct.trans first.direct
  stack := second.stack.trans first.stack
  bank := second.bank.trans first.bank
  memory address outside :=
    (second.memory address fun temporary =>
      outside ((isTemporary_congr first.direct).mp temporary)).trans (first.memory address outside)

theorem Undisturbed.contents_eq (undisturbed : ctx.Undisturbed before after)
    (a : after.a = before.a) (b : after.b = before.b) (x : after.x = before.x)
    (y : after.y = before.y)
    (apart : ∀ addr, ctx.Covers syms depth before width loc addr → ¬ctx.IsTemporary before addr) :
    ctx.contents syms depth after width loc = ctx.contents syms depth before width loc := by
  have span_same : ctx.span? syms depth after loc = ctx.span? syms depth before loc :=
    span?_congr undisturbed.direct undisturbed.stack undisturbed.bank
  cases span_eq : ctx.span? syms depth before loc with
  | some span =>
    rw [contents_of_span? span_eq, contents_of_span? (span_same.trans span_eq)]
    exact read_congr fun addr covers =>
      undisturbed.memory addr (apart addr ⟨span, span_eq, covers⟩)
  | none =>
    cases loc with
    | reg hw =>
      simp_all [contents, Machine.value, Machine.whole]
    | nowhere => rfl
    | _ => cases span_eq

/-- A location has got a number. Besides the location, only temporary bytes have changed. -/
structure Delivers (context : SelectionContext) (symbols : String → Int) (depth : Int)
    (before : Machine) (width : Mode) (location : Loc) (number : Int) (after : Machine) :
    Prop where
  direct : after.direct = before.direct
  stack : after.stack = before.stack
  bank : after.bank = before.bank
  contents : context.contents symbols depth after width location = number
  extended : after.ZeroExtended width location
  memory : ∀ address, ¬context.Covers symbols depth before width location address →
    ¬context.IsTemporary before address → after.memory address = before.memory address

theorem delivers_write {machine : Machine} (span_eq : ctx.span? syms depth machine loc = some span)
    (holds : width.width.Holds num) :
    ctx.Delivers syms depth machine width loc num
      { machine with memory := machine.memory.write span width num } where
  direct := rfl
  stack := rfl
  bank := rfl
  contents := by
    let after : Machine := { machine with memory := machine.memory.write span width num }
    have span_same : ctx.span? syms depth after loc = some span := span_eq
    exact (contents_of_span? span_same).trans ((read_write _ (two_le_space span_eq)).trans holds)
  extended := by constructor <;> rintro rfl <;> cases span_eq
  memory address outside _ :=
    write_of_not_covers fun covers => outside ⟨span, span_eq, covers⟩

theorem Delivers.withZero
    (delivers : ctx.Delivers syms depth before width loc num after) (zero : Bool) :
    ctx.Delivers syms depth before width loc num { after with zero } :=
  ⟨delivers.direct, delivers.stack, delivers.bank, delivers.contents, delivers.extended,
    delivers.memory⟩

theorem toNat_ofInt_of_holds (holds : width.width.Holds num) :
    ((BitVec.ofInt 16 num).toNat : Int) = num := by
  obtain ⟨nonneg, below⟩ := Width.holds_iff.mp holds
  have le : width.width.modulus ≤ 0x10000 := by cases width <;> decide
  rw [toNat_ofInt_sixteen]
  omega

theorem delivers_setIndex {hw : Reg} (idx : hw.isIndex = true)
    (undisturbed : ctx.Undisturbed before mid) (holds : width.width.Holds num) :
    ctx.Delivers syms depth before width (.reg hw) num (mid.setIndex hw num) := by
  have number_eq := toNat_ofInt_of_holds holds
  have below := number_eq.trans_lt (Width.holds_iff.mp holds).2
  have contents := (congrArg width.width.truncate number_eq).trans holds
  cases hw with
  | a | b => cases idx
  | x =>
    exact ⟨undisturbed.direct, undisturbed.stack, undisturbed.bank, contents,
      ⟨fun _ => below, nofun⟩, fun address _ => undisturbed.memory address⟩
  | y =>
    exact ⟨undisturbed.direct, undisturbed.stack, undisturbed.bank, contents,
      ⟨nofun, fun _ => below⟩, fun address _ => undisturbed.memory address⟩

theorem undisturbed_mode {m : Machine} (mode : Mode) : ctx.Undisturbed m { m with mode } :=
  ⟨rfl, rfl, rfl, fun _ _ => rfl⟩

theorem undisturbed_zero (m : Machine) (zero : Bool) : ctx.Undisturbed m { m with zero } :=
  ⟨rfl, rfl, rfl, fun _ _ => rfl⟩

section

variable (ctx)

theorem undisturbed_write (machine : Machine) (mode : Mode) {offset : Int} (num : Int)
    (lower : 0 ≤ offset) (upper : offset < 7) : ctx.Undisturbed machine { machine with
      memory := machine.memory.write
        (.bankZero (machine.direct.toNat + (ctx.settings.tempBase + offset))) mode
        num } where
  direct := rfl
  stack := rfl
  bank := rfl
  memory address outside := by
    refine write_of_not_covers fun covers => outside ?_
    obtain ⟨idx, nonneg, below, rfl⟩ := covers
    refine ⟨offset + idx, by omega, ?_, ?_⟩
    · have : mode.width.bytes ≤ 2 := by cases mode <;> decide
      omega
    · simp only [byte, bankZero, add_assoc]

variable (m)

theorem undisturbed_operandTemp (mode : Mode) (num : Int) : ctx.Undisturbed m { m with
      memory := m.memory.write
        (.bankZero (m.direct.toNat + ctx.settings.operandTemp)) mode num } := by
  have undisturbed := undisturbed_write ctx m mode num (le_refl 0) (by decide)
  rw [add_zero] at undisturbed
  exact undisturbed

/-- The machine with a zero-extended byte in the operand temporary. -/
def extendedTemp (context : SelectionContext) (machine : Machine) (number : Int) : Machine :=
  let start : Int := machine.direct.toNat
  { machine with
    memory :=
      (machine.memory.write (.bankZero (start + context.settings.operandTemp)) .narrow number).write
        (.bankZero (start + (context.settings.operandTemp + 1))) .narrow 0 }

theorem undisturbed_extendedTemp (num : Int) : ctx.Undisturbed m (ctx.extendedTemp m num) := by
  have first := undisturbed_operandTemp ctx m .narrow num
  have one_nonneg : (0 : Int) ≤ 1 := by decide
  exact first.trans (undisturbed_write ctx _ .narrow 0 one_nonneg (by decide))

theorem read_extendedTemp (holds : Width.byte.Holds num) : (ctx.extendedTemp m num).memory.read
        (.bankZero (m.direct.toNat + ctx.settings.operandTemp)) .wide = num := by
  rw [extendedTemp, ← add_assoc]
  exact (read_extended ..).trans holds

end

theorem runCode_extendTemp {m : Machine} (narrow : m.mode = .narrow) :
    runCode syms [.direct .sta ctx.settings.operandTemp,
        .direct .stz (ctx.settings.operandTemp + 1)] (.running, m) =
      some (.running, ctx.extendedTemp m m.a.toNat) := by
  obtain ⟨a, b, x, y, stack, direct, bank, mode, carry, zero, mem⟩ := m
  cases narrow
  rfl

theorem runCode_extendedTemp (ctx : SelectionContext) (syms : String → Int) (m : Machine)
    {hw : Reg} (idx : hw.isIndex = true) (holds : Width.byte.Holds num) :
    runCode syms [.direct hw.loadOp ctx.settings.operandTemp] (.running, ctx.extendedTemp m num) =
      some (.running, (ctx.extendedTemp m num).setIndex hw num) := by
  have loaded := congrArg (fun value => some (Control.running,
    (ctx.extendedTemp m num).setIndex hw value)) (ctx.read_extendedTemp m holds)
  cases hw with
  | a | b => cases idx
  | x | y => exact loaded

end SelectionContext

end Backend65816
