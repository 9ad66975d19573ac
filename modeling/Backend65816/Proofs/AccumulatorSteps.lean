import Backend65816.Proofs.LocationTransfers
import Backend65816.Proofs.WidthArithmetic

/-!
# Arithmetic of the accumulator

What the instructions of an operation do to a number in the accumulator. Addition takes the carry
flag cleared and subtraction takes it set; a shift is a row of steps by one place; a complement and
a change of sign go through an exclusive or.
-/

namespace Backend65816

open BitVec Width Int

variable {kind : BinKind} {res num : Int}

/-! ## Complements -/

theorem Width.holds_mask (width : Width) : width.Holds width.mask := by
  have positive := width.modulus_pos
  rw [holds_iff, mask_eq]
  omega

theorem xor_two_pow_sub_one {num places : Nat} (below : num < 2 ^ places) :
    num ^^^ (2 ^ places - 1) = 2 ^ places - 1 - num := by
  have flipped : (~~~BitVec.ofNat places num).toNat =
      2 ^ places - 1 - (BitVec.ofNat places num).toNat :=
    toNat_not
  rwa [← xor_allOnes, toNat_xor, toNat_allOnes, toNat_ofNat, Nat.mod_eq_of_lt below] at flipped

theorem xor_mask {width : Width} (holds : width.Holds num) :
    ((num.toNat ^^^ width.mask.toNat : Nat) : Int) = width.mask - num := by
  obtain ⟨nonneg, below⟩ := holds_iff.mp holds
  have mask_eq := width.mask_eq
  rw [modulus_eq] at below mask_eq
  have mask_toNat : width.mask.toNat = 2 ^ width.places - 1 := by omega
  rw [mask_toNat, xor_two_pow_sub_one (by omega)]
  omega

namespace Machine

variable {syms : String → Int} {m : Machine} {mode : Mode}

/-- The code leads to its end and leaves a number in the accumulator. -/
def Leaves (symbols : String → Int) (machine : Machine) (code : List Instr) (number : Int) : Prop :=
  ∃ after, runCode symbols code (.running, machine) = some (.running, after) ∧
    machine.Carries number after

theorem Leaves.append {front back : List Instr} {between : Int}
    (first : m.Leaves syms front between)
    (second : ∀ mid, m.Carries between mid → mid.Leaves syms back num) :
    m.Leaves syms (front ++ back) num := by
  obtain ⟨mid, front_runs, front_carries⟩ := first
  obtain ⟨after, back_runs, back_carries⟩ := second mid front_carries
  exact ⟨after, runCode_append_of front_runs back_runs, front_carries.trans back_carries⟩

section

variable (syms)

theorem leaves_complement (at_width : m.mode = mode) :
    m.Leaves syms [.immediate .eor mode.width.mask mode.width.bytes]
      (mode.width.mask - m.accumulator) := by
  have holds := m.holds_accumulator
  rw [at_width] at holds
  have complement_holds : mode.width.Holds (mode.width.mask - m.accumulator) := by
    obtain ⟨nonneg, below⟩ := holds_iff.mp holds
    have mask_eq := mode.width.mask_eq
    exact holds_iff.mpr ⟨by omega, by omega⟩
  have carries := m.carries_setAccumulator (mode.width.mask - m.accumulator)
  rw [at_width, complement_holds] at carries
  refine ⟨_, runCode_eor at_width _, ?_⟩
  rw [mode.width.holds_mask, xor_mask holds]
  exact carries

theorem leaves_inc (m : Machine) :
    m.Leaves syms [.plain .inc] (m.mode.width.truncate (m.accumulator + 1)) :=
  ⟨_, rfl, m.carries_setAccumulator _⟩

variable (at_width : m.mode = mode)
include at_width

theorem leaves_negation :
    m.Leaves syms [.immediate .eor mode.width.mask mode.width.bytes, .plain .inc]
      (UnKind.neg.apply mode.width m.accumulator) := by
  have steps : m.Leaves syms ([.immediate .eor mode.width.mask mode.width.bytes] ++ [.plain .inc])
      (mode.width.truncate (mode.width.mask - m.accumulator + 1)) := by
    refine (leaves_complement syms at_width).append fun mid carries => ?_
    have incremented := leaves_inc syms mid
    rwa [carries.accumulator, carries.mode, at_width] at incremented
  have mask_eq := mode.width.mask_eq
  have negation : mode.width.truncate (mode.width.mask - m.accumulator + 1) =
      mode.width.truncate (-m.accumulator) :=
    truncate_congr ⟨1, by omega⟩
  rw [negation] at steps
  exact steps

theorem leaves_cpl : m.Leaves syms [.immediate .eor mode.width.mask mode.width.bytes]
      (UnKind.cpl.apply mode.width m.accumulator) := by
  have steps := leaves_complement syms at_width
  have holds := m.holds_accumulator
  rw [at_width] at holds
  obtain ⟨nonneg, below⟩ := holds_iff.mp holds
  have mask_eq := mode.width.mask_eq
  have complement : mode.width.truncate (-m.accumulator - 1) = mode.width.mask - m.accumulator :=
    (truncate_congr ⟨-1, by omega⟩).trans (holds_iff.mpr ⟨by omega, by omega⟩)
  rw [← complement] at steps
  exact steps

theorem leaves_not (truth : m.accumulator = 0 ∨ m.accumulator = 1) :
    m.Leaves syms [.immediate .eor 1 mode.width.bytes] (UnKind.not.apply mode.width m.accumulator) := by
  have one : mode.width.truncate 1 = 1 := by cases mode <;> rfl
  refine ⟨_, runCode_eor at_width 1, ?_⟩
  have carries := m.carries_setAccumulator
    (m.accumulator.toNat ^^^ (mode.width.truncate 1).toNat : Nat)
  rw [at_width] at carries
  have flipped : mode.width.truncate (m.accumulator.toNat ^^^ (mode.width.truncate 1).toNat : Nat) =
        UnKind.not.apply mode.width m.accumulator := by
    rw [one]
    rcases truth with truth | truth <;> rw [truth] <;> rfl
  rwa [flipped] at carries

end

/-! ## Two operands -/

section Operands

variable {operation : Operation} {op : Op} {prepared loaded : Machine} {left : Int}

/-- An instruction that gives the accumulator a number made from its own and the operand. -/
theorem leaves_of_fetch (set : Int → Machine)
    (provides : operation.Provides syms op prepared num) (carries : prepared.Carries left loaded)
    (access_eq : ∀ operation : Operation, operation.op = op →
      loaded.access syms operation = (loaded.fetch? syms operation loaded.mode).map set)
    (result_carries : loaded.Carries res (set num)) : loaded.Leaves syms [.run operation] res := by
  refine ⟨set num, ?_, result_carries⟩
  change (operation.advance syms loaded).bind _ = _
  rw [provides.advance_eq, access_eq operation provides.op_eq, carries.mode,
    provides.fetch_eq left loaded carries]
  rfl

theorem carries_add (m : Machine) (num : Int) :
    m.Carries (m.mode.width.truncate (m.accumulator + num + m.carry.toInt)) (m.add num) :=
  (m.carries_setAccumulator _).withFlags

/-- An instruction that sets the carry flag leaves the accumulator to the next ones. -/
theorem leaves_after_carry {instr : Instr} {code : List Instr} {carry : Bool}
    (sets : runCode syms [instr] (.running, loaded) = some (.running, { loaded with carry }))
    (rest : { loaded with carry : Machine }.Leaves syms code res) :
    loaded.Leaves syms ([instr] ++ code) res := by
  obtain ⟨after, runs, carries⟩ := rest
  exact ⟨after, runCode_append_of sets runs, loaded.carries_self.withFlags.trans carries⟩

theorem Carries.leaves_arithmetic (kind : BinKind) (carries : prepared.Carries left loaded)
    (plain : kind.isShift = false)
    (provides : operation.Provides syms (Select.arithmeticOp kind).2 prepared num) :
    loaded.Leaves syms ((Select.arithmeticOp kind).1 ++ [.run operation])
      (kind.apply prepared.mode.width left num) := by
  have bitwise {set : Nat → Nat → Nat}
      (access_eq : ∀ operation : Operation, operation.op = (Select.arithmeticOp kind).2 →
        loaded.access syms operation = (loaded.fetch? syms operation loaded.mode).map fun num =>
            loaded.setAccumulator (set loaded.accumulator.toNat num.toNat : Nat)) :
      loaded.Leaves syms [.run operation]
        (prepared.mode.width.truncate (set left.toNat num.toNat : Nat)) := by
    refine leaves_of_fetch _ provides carries access_eq ?_
    rw [← carries.accumulator, ← carries.mode]
    exact loaded.carries_setAccumulator _
  cases kind with
  | add =>
    let ready : Machine := { loaded with carry := false }
    have ready_carries : prepared.Carries left ready := carries.withFlags
    have added := carries_add ready num
    rw [ready_carries.accumulator, ready_carries.mode] at added
    have sum : left + num + ready.carry.toInt = left + num := add_zero _
    rw [sum] at added
    exact leaves_after_carry rfl (leaves_of_fetch ready.add provides ready_carries
      (fun operation op_eq => by rw [access, op_eq]; rfl) added)
  | sub =>
    let ready : Machine := { loaded with carry := true }
    have ready_carries : prepared.Carries left ready := carries.withFlags
    have subtracted : ready.Carries _ (ready.subtract num) := carries_add ready _
    rw [ready_carries.accumulator, ready_carries.mode] at subtracted
    have mask_eq := prepared.mode.width.mask_eq
    have difference : prepared.mode.width.truncate
        (left + (prepared.mode.width.mask - num) + ready.carry.toInt) =
          prepared.mode.width.truncate (left - num) := by
      have carry_eq : ready.carry.toInt = 1 := rfl
      exact truncate_congr ⟨1, by omega⟩
    rw [difference] at subtracted
    exact leaves_after_carry rfl (leaves_of_fetch ready.subtract provides ready_carries
      (fun operation op_eq => by rw [access, op_eq]; rfl) subtracted)
  | and => exact bitwise fun operation op_eq => by rw [access, op_eq]; rfl
  | or => exact bitwise fun operation op_eq => by rw [access, op_eq]; rfl
  | xor => exact bitwise fun operation op_eq => by rw [access, op_eq]; rfl
  | shl | shr | sar => cases plain

end Operands

end Machine

/-! ## Shifts -/

section Shifts

variable {width : Width}

theorem signed_truncate (lower : -width.signBit ≤ num) (upper : num < width.signBit) :
    width.signed (width.truncate num) = num := by
  have modulus_eq := width.modulus_eq_two_signBit
  unfold Width.signed
  by_cases negative : num < 0
  · have cut : width.truncate num = num + width.modulus :=
      (truncate_congr ⟨-1, by omega⟩).trans (holds_iff.mpr ⟨by omega, by omega⟩)
    omega
  · have cut : width.truncate num = num := holds_iff.mpr ⟨by omega, by omega⟩
    rw [cut, if_pos upper]

theorem truncate_signed (holds : width.Holds num) : width.truncate (width.signed num) = num := by
  unfold Width.signed
  split
  · exact holds
  · exact (truncate_congr ⟨-1, by omega⟩).trans holds

theorem ediv_two_pow_bounds {bound : Int} (places : Nat) (lower : -bound ≤ num)
    (upper : num < bound) : -bound ≤ num / 2 ^ places ∧ num / 2 ^ places < bound := by
  have positive : (0 : Int) < 2 ^ places := Int.pow_pos (by decide)
  have grows : bound ≤ bound * 2 ^ places := le_mul_of_one_le_right (by omega) positive
  refine ⟨Int.le_ediv_of_mul_le positive ?_, Int.ediv_lt_of_lt_mul positive (by omega)⟩
  rw [Int.neg_mul]
  omega

section

variable (shift : kind.isShift = true)
include shift

theorem apply_zero (holds : width.Holds num) : kind.apply width num 0 = num := by
  cases kind with
  | shl =>
    change width.truncate (num * 2 ^ 0) = num
    rwa [pow_zero, mul_one]
  | shr =>
    change width.truncate (num / 2 ^ 0) = num
    rwa [pow_zero, ediv_one]
  | sar =>
    change width.truncate (width.signed num / 2 ^ 0) = num
    rw [pow_zero, ediv_one]
    exact truncate_signed holds
  | add | sub | and | or | xor => cases shift

theorem apply_succ (holds : width.Holds num) (count : Nat) :
    kind.apply width (kind.apply width num count) 1 = kind.apply width num (count + 1 : Nat) := by
  have positive : (0 : Int) < 2 ^ count := Int.pow_pos (by decide)
  cases kind with
  | shl =>
    change width.truncate (width.truncate (num * 2 ^ count) * 2 ^ (1 : Int).toNat) =
      width.truncate (num * 2 ^ (count + 1))
    rw [truncate_shl, pow_succ, ← mul_assoc]
    rfl
  | shr =>
    obtain ⟨nonneg, below⟩ := holds_iff.mp holds
    have quotient_holds : width.Holds (num / 2 ^ count) := by
      refine holds_iff.mpr ⟨ediv_nonneg nonneg (le_of_lt positive), ?_⟩
      exact lt_of_le_of_lt (ediv_le_self _ nonneg) below
    change width.truncate (width.truncate (num / 2 ^ count) / 2 ^ (1 : Int).toNat) =
      width.truncate (num / 2 ^ (count + 1))
    rw [quotient_holds, pow_succ, ← ediv_ediv_of_nonneg (le_of_lt positive)]
    rfl
  | sar =>
    obtain ⟨lower, upper⟩ := signed_bounds holds
    obtain ⟨lower, upper⟩ := ediv_two_pow_bounds count lower upper
    change width.truncate (width.signed (width.truncate (width.signed num / 2 ^ count)) /
      2 ^ (1 : Int).toNat) = width.truncate (width.signed num / 2 ^ (count + 1))
    simp_all [signed_truncate, pow_succ, ediv_ediv_of_nonneg]
  | add | sub | and | or | xor => cases shift

theorem apply_min {mode : Mode} {amount : Int}
    (holds : mode.width.Holds num) (nonneg : 0 ≤ amount) :
    kind.apply mode.width num (min amount mode.width.bits).toNat =
      kind.apply mode.width num amount := by
  have bits_eq : mode.width.bits = mode.width.places := by cases mode <;> rfl
  rcases le_total amount mode.width.bits with le | ge
  · simp_all
  · cases kind with
    | shl => simp_all [apply_shl_of_le]
    | shr => simp_all [apply_shr_of_le]
    | sar => simp_all [apply_sar_of_le]
    | add | sub | and | or | xor => cases shift

end

end Shifts

namespace Machine

variable {syms : String → Int} {m : Machine} {mode : Mode}

theorem carries_shiftRight (m : Machine) (bit : Bool) : m.Carries (m.mode.width.truncate
      (m.accumulator / 2 + if bit then m.mode.width.signBit else 0)) (m.shiftRight bit) :=
  (m.carries_setAccumulator _).withFlags

variable (syms)

theorem leaves_sarStep (m : Machine) : m.Leaves syms (Select.shiftStep .sar m.mode.width)
      (BinKind.sar.apply m.mode.width m.accumulator 1) := by
  have sign_holds : m.mode.width.truncate m.mode.width.signBit = m.mode.width.signBit := by
    cases m.mode <;> rfl
  let negative : Bool := m.mode.width.signBit ≤ m.accumulator
  let compared : Machine :=
    { m with carry := negative, zero := m.accumulator = m.mode.width.signBit }
  have compares : runCode syms
      [.immediate .cmp m.mode.width.signBit m.mode.width.bytes] (.running, m) =
        some (.running, compared) := by
    refine runCode_immediate ?_
    change (m.fetch? syms _ m.mode).map _ = _
    rw [m.fetch?_immediate, sign_holds]
    rfl
  have shifted := compared.carries_shiftRight negative
  have entering : compared.mode.width.truncate (compared.accumulator / 2 +
      if negative then compared.mode.width.signBit else 0) =
        BinKind.sar.apply m.mode.width m.accumulator 1 := by
    have modulus_eq := m.mode.width.modulus_eq_two_signBit
    change m.mode.width.truncate (m.accumulator / 2 +
        if decide (m.mode.width.signBit ≤ m.accumulator) = true then
          m.mode.width.signBit else 0) =
      m.mode.width.truncate (m.mode.width.signed m.accumulator / 2)
    unfold Width.signed
    by_cases below : m.accumulator < m.mode.width.signBit
    · grind
    · rw [if_pos (by simpa using below)]
      exact truncate_congr ⟨1, by omega⟩
  rw [entering] at shifted
  exact ⟨_, runCode_append_of compares rfl, m.carries_self.withFlags.trans shifted⟩

theorem leaves_shiftStep (shift : kind.isShift = true) (at_width : m.mode = mode) :
    m.Leaves syms (Select.shiftStep kind mode.width) (kind.apply mode.width m.accumulator 1) := by
  subst at_width
  cases kind with
  | shl =>
    have doubled : m.Carries _ m.shiftLeft :=
      (m.carries_setAccumulator (2 * m.accumulator)).withFlags
    rw [mul_comm] at doubled
    exact ⟨_, rfl, doubled⟩
  | shr =>
    have halved := m.carries_shiftRight false
    rw [if_neg nofun, add_zero] at halved
    exact ⟨_, rfl, halved⟩
  | sar => exact leaves_sarStep syms m
  | add | sub | and | or | xor => cases shift

theorem leaves_shift (shift : kind.isShift = true) (at_width : m.mode = mode) (count : Nat) :
    m.Leaves syms (List.replicate count (Select.shiftStep kind mode.width)).flatten
      (kind.apply mode.width m.accumulator count) := by
  have holds := m.holds_accumulator
  rw [at_width] at holds
  induction count with
  | zero =>
    have same := m.carries_self
    rw [← apply_zero shift holds] at same
    exact ⟨m, rfl, same⟩
  | succ count hypothesis =>
    rw [List.replicate_succ', List.flatten_append, List.flatten_singleton]
    refine hypothesis.append fun mid carries => ?_
    have step := leaves_shiftStep syms shift (carries.mode.trans at_width)
    rwa [carries.accumulator, apply_succ shift holds] at step

/-! ## Changes of width -/

/-- Flipping the sign of a byte and subtracting its weight copies the sign into the high byte. -/
theorem leaves_signExtension (wide : m.mode = .wide) (byte : Width.byte.Holds m.accumulator) :
    m.Leaves syms [.immediate .eor 0x80 2, .plain .sec, .immediate .sbc 0x80 2]
      (Width.word.truncate (Width.byte.signed m.accumulator)) := by
  obtain ⟨nonneg, below⟩ := holds_iff.mp byte
  have flipped : ((m.accumulator.toNat ^^^ (Width.word.truncate 0x80).toNat : Nat) : Int) =
      Width.byte.signed m.accumulator + 0x80 := by
    have biased := apply_xor_signBit byte
    rw [truncate_add_signBit byte] at biased
    have small : m.accumulator.toNat ^^^ 0x80 < 2 ^ 8 :=
      Nat.xor_lt_two_pow (by change m.accumulator < 0x100 at below; omega) (by decide)
    have cut : Width.byte.truncate ((m.accumulator.toNat ^^^ 0x80 : Nat) : Int) =
        ((m.accumulator.toNat ^^^ 0x80 : Nat) : Int) :=
      holds_iff.mpr ⟨natCast_nonneg _,
        show ((m.accumulator.toNat ^^^ 0x80 : Nat) : Int) < 0x100 by omega⟩
    exact cut.symm.trans biased
  have eor : m.Leaves syms [.immediate .eor 0x80 2]
      (Width.word.truncate (Width.byte.signed m.accumulator + 0x80)) := by
    have carries := m.carries_setAccumulator
      (m.accumulator.toNat ^^^ (Width.word.truncate 0x80).toNat : Nat)
    rw [wide] at carries
    refine ⟨_, runCode_eor wide 0x80, ?_⟩
    rwa [← flipped]
  refine eor.append fun mid carries => ?_
  have at_width : mid.mode = .wide := carries.mode.trans wide
  have subtracted := mid.carries_self.leaves_arithmetic .sub rfl
    (Operation.provides_immediate syms at_width .sbc 0x80)
  have difference : BinKind.sub.apply mid.mode.width mid.accumulator
      (Mode.wide.width.truncate 0x80) = Width.word.truncate (Width.byte.signed m.accumulator) := by
    rw [at_width, carries.accumulator]
    change Width.word.truncate (Width.word.truncate _ - 0x80) = _
    obtain ⟨factor, cut⟩ := Width.word.dvd_sub_truncate (Width.byte.signed m.accumulator + 0x80)
    exact truncate_congr ⟨-factor, by rw [mul_neg]; omega⟩
  rw [difference] at subtracted
  exact subtracted

theorem leaves_lowByte (wide : m.mode = .wide) :
    m.Leaves syms [.immediate .and 0x00FF 2] m.a.toNat := by
  have masked := m.carries_self.leaves_arithmetic .and rfl
    (Operation.provides_immediate syms wide .and 0x00FF)
  have low : BinKind.and.apply m.mode.width m.accumulator
      (Mode.wide.width.truncate 0x00FF) = m.a.toNat := by
    rw [accumulator, wide]
    change Width.word.truncate ((m.whole.toNat &&& (2 ^ 8 - 1) : Nat) : Int) = _
    rw [Nat.and_two_pow_sub_one_eq_mod]
    change ((m.whole.toNat % 2 ^ 8 : Nat) : Int) % 0x10000 = _
    unfold whole joined
    omega
  rw [low] at masked
  exact masked

end Machine

end Backend65816
