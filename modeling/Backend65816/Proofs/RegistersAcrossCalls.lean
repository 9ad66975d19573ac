import Backend65816.Convention.Resolve
import Backend65816.Placement.Writes
import Backend65816.Proofs.SavedRegisters

/-!
# Registers across a call

A function may count on a register of its callee's mask only as far as the callee saves it. The
callee saves at its own width, so the high half of a wide value in `a` is lost to a narrow callee
that preserves `a` and not `b`; in every other case the value comes back in full.
-/

namespace Backend65816

open BitVec Machine

/-- A place that a call returns to. -/
structure ReturnPoint where
  bank : BitVec 8
  address : Int

namespace Machine

/-- The state at the first instruction of a function. A call pushes the place to return to; an
interrupt pushes the flags behind it. -/
def called (machine : Machine) (signature : Signature) (point : ReturnPoint) : Machine :=
  if signature.interrupt.isSome then
    ((machine.push point.bank).pushWord point.address).push machine.status
  else if signature.far then (machine.push point.bank).pushWord point.address
  else machine.pushWord point.address

section

variable (m : Machine) (sig : Signature) (point : ReturnPoint)
include m sig point

theorem called_mode : (m.called sig point).mode = m.mode := by
  unfold called
  cases sig.interrupt.isSome <;> cases sig.far <;> rfl

theorem called_register (reg : Reg) : (m.called sig point).register reg = m.register reg := by
  unfold called
  cases sig.interrupt.isSome <;> cases sig.far <;> cases reg <;> rfl

theorem called_stack :
    (m.called sig point).stack = m.stack - BitVec.ofNat 16 sig.returnAddressSize := by
  unfold called Signature.returnAddressSize
  cases sig.interrupt.isSome <;> cases sig.far <;> simp only [push, pushWord, sub_sub] <;> rfl

end

/-- Bytes of a register that a value of a width takes. -/
def held (machine : Machine) (register : Reg) (width : Width) : Int :=
  width.truncate
    (match register with
    | .a => machine.whole
    | .b => machine.b.toNat
    | .x => machine.x.toNat
    | .y => machine.y.toNat)

theorem held_eq {m other : Machine} {reg : Reg} {width : Width}
    (same : m.register reg = other.register reg)
    (high : reg = .a → width = .word → m.register .b = other.register .b) :
    m.held reg width = other.held reg width := by
  cases reg with
  | b | x | y => exact congrArg width.truncate same
  | a =>
    change width.truncate m.whole = width.truncate other.whole
    change (m.a.toNat : Int) = other.a.toNat at same
    by_cases wide : width = .word
    · have high : (m.b.toNat : Int) = other.b.toNat := high rfl wide
      rw [whole, whole, joined, joined, same, high]
    · simp_all [Width.truncate, Width.modulus, whole, joined]

end Machine

namespace Signature

variable {sig : Signature} {register : Reg} {width : Width}

def runCall (signature : Signature) (program : BitVec 8) (point : ReturnPoint)
    (body : Machine → Machine) (machine : Machine) : Option Machine := do
  let entered ← (machine.called signature point).runSequence program signature.entrySequence
  (body entered).runSequence program signature.exitSequence

/-- The body leaves the mode, the stack pointer, and what the call and the entry sequence pushed as
they were. -/
def Balances (signature : Signature) (body : Machine → Machine) : Prop :=
  ∀ machine : Machine,
    machine.SameStack (signature.savedBytes + signature.returnAddressSize) (body machine)

/-- What a call does to registers. -/
structure Restores (signature : Signature) (body : Machine → Machine) (before after : Machine) :
    Prop where
  mode : after.mode = before.mode
  stack : after.stack = before.stack
  /-- Registers are restored, or as the body leaves them after it finds them as the caller left
  them. -/
  registers : ∃ entered : Machine,
    (∀ register, entered.register register = before.register register) ∧
    ∀ register, after.register register =
      if signature.restored.has register then before.register register
      else (body entered).register register

theorem exists_runCall (sig : Signature) {program : BitVec 8} {point : ReturnPoint}
    {body : Machine → Machine} (balances : sig.Balances body) {before : Machine} :
    ∃ after, sig.runCall program point body before = some after ∧
      sig.Restores body before after := by
  cases handler : sig.interrupt with
  | none =>
    obtain ⟨leave, exit_eq, brackets⟩ := brackets_called handler program
    obtain ⟨entered, entered_eq, entering, leaving⟩ :=
      brackets (before.called sig point) (before.called_mode sig point)
    have same := balances entered
    obtain ⟨back, back_eq, left⟩ := leaving (body entered)
      ⟨same.mode, same.stack, fun depth bound => same.pushed depth (by omega)⟩
    refine ⟨back.drop sig.returnAddressSize, ?_, left.mode, ?_, entered,
      fun reg => ?_, fun reg => ?_⟩
    · rw [runCall, entered_eq, exit_eq]
      change Machine.runSequence _ _ _ = _
      rw [runSequence_append, back_eq, returnAddressSize, handler]
      cases sig.far <;> rfl
    · change back.stack + _ = _
      rw [left.stack, same.stack, entering.stack, sub_add_cancel, before.called_stack,
        sub_add_cancel]
    · rw [entering.registers, before.called_register]
    · have restoring := left.registers reg
      rw [before.called_register] at restoring
      cases reg <;> exact restoring
  | some vector =>
    have is_handler : sig.interrupt.isSome = true := by rw [handler]; rfl
    obtain ⟨enter, leave, entry_eq, exit_eq, brackets⟩ := brackets_handler is_handler
    obtain ⟨entered, entered_eq, entering, leaving⟩ :=
      brackets { before.called sig point with mode := .wide } rfl
    have same := balances entered
    obtain ⟨back, back_eq, left⟩ := leaving (body entered)
      ⟨same.mode, same.stack, fun depth bound => same.pushed depth (by omega)⟩
    have size_eq : sig.returnAddressSize = 4 := by rw [returnAddressSize, if_pos is_handler]
    have saved_eq : sig.savedBytes = 9 := by rw [savedBytes, if_pos is_handler]
    have pulled : back.pushed 0 = before.status := by
      rw [left.pushed, same.pushed _ (by omega), entering.pushed _ (by omega)]
      change (before.called sig point).pushed 0 = _
      rw [Machine.called, if_pos is_handler, pushed_push]
    refine ⟨(back.setStatus before.status).drop 4, ?_, ?_, ?_, entered, fun reg => ?_,
      fun reg => ?_⟩
    · have entry_run : (before.called sig point).runSequence program
          sig.entrySequence = some entered := by
        rw [entry_eq]
        exact entered_eq
      rw [runCall, entry_run, exit_eq]
      change Machine.runSequence _ _ _ = _
      rw [runSequence_append, back_eq, ← pulled]
      rfl
    · exact before.setStatus_status_mode back
    · change back.stack + _ = _
      rw [left.stack, same.stack, entering.stack, sub_add_cancel]
      rw [before.called_stack, size_eq, sub_add_cancel]
    · rw [entering.registers, ← before.called_register sig point]
      cases reg <;> rfl
    · have restoring := left.registers reg
      rw [← before.called_register sig point]
      cases reg <;> exact restoring

/-- A value in a register of the caller outlives the call in full. -/
def Keeps (signature : Signature) (mode : Mode) (register : Reg) (width : Width) : Prop :=
  ∀ (program : BitVec 8) (point : ReturnPoint) (body : Machine → Machine),
    signature.Balances body → ∀ before : Machine, before.mode = mode →
      ∃ after, signature.runCall program point body before = some after ∧
        after.mode = before.mode ∧ after.stack = before.stack ∧
        after.held register width = before.held register width

/-- The high half of a wide value in the accumulator is lost to a narrow function that does not
save it. -/
def LosesHighHalf (signature : Signature) (register : Reg) (width : Width) : Prop :=
  register = .a ∧ width = .word ∧ signature.mode = .narrow ∧ signature.interrupt = none ∧
    signature.preserve.has .b = false

theorem restored_of_preserve (preserved : sig.preserve.has reg) : sig.restored.has reg := by
  unfold restored restoredHalves
  cases sig.interrupt with
  | some vector => cases reg <;> rfl
  | none => cases sig.mode <;> cases reg <;> simp_all [RegMask.has]

theorem restored_b (preserved : sig.preserve.has .a)
    (whole : ¬sig.LosesHighHalf .a width) : width = .word → sig.restored.has .b := by
  intro wide
  unfold LosesHighHalf at whole
  unfold restored restoredHalves
  cases interrupt_eq : sig.interrupt with
  | some vector => rfl
  | none => grind [RegMask.has]

theorem keeps_of_preserve (preserved : sig.preserve.has reg)
    (whole : ¬sig.LosesHighHalf reg width) (mode : Mode) : sig.Keeps mode reg width := by
  intro program point body balances before _
  obtain ⟨after, run_eq, restores⟩ := sig.exists_runCall balances
  obtain ⟨entered, -, regs⟩ := restores.registers
  have same (reg) (restored : sig.restored.has reg) : after.register reg = before.register reg := by
    rw [regs, if_pos restored]
  refine ⟨after, run_eq, restores.mode, restores.stack, held_eq
    (same reg (restored_of_preserve preserved)) fun is_a wide => ?_⟩
  grind [restored_b]

theorem not_keeps_of_losesHighHalf (loses : sig.LosesHighHalf reg width) :
    ¬sig.Keeps .wide reg width := by
  obtain ⟨rfl, rfl, narrow, called, unsaved⟩ := loses
  intro keeps
  let body (m : Machine) : Machine := { m with b := m.b + 1 }
  let before : Machine := ⟨0, 0, 0, 0, 0, 0, 0, .wide, false, false, fun _ => 0⟩
  have balances : sig.Balances body := fun m => ⟨rfl, rfl, fun _ _ => rfl⟩
  obtain ⟨after, run_eq, -, -, same⟩ := keeps 0 ⟨0, 0⟩ body balances before rfl
  obtain ⟨found, found_eq, restores⟩ := sig.exists_runCall balances
  obtain rfl : found = after := Option.some.inj (found_eq.symm.trans run_eq)
  obtain ⟨entered, entering, regs⟩ := restores.registers
  have unrestored : sig.restored.has .b = false := by
    rw [restored, called, restoredHalves, narrow]
    exact unsaved
  have counted : found.b = 1 := by
    have left := regs .b
    rw [unrestored] at left
    have found_zero : entered.b = 0 := eq_of_toNat_eq (Int.ofNat.inj (entering .b))
    have left_eq : found.b = entered.b + 1 := eq_of_toNat_eq (Int.ofNat.inj left)
    rw [left_eq, found_zero]
    rfl
  change found.whole % 0x10000 = 0 at same
  rw [Machine.whole, Int.emod_eq_of_lt joined_nonneg joined_lt, joined] at same
  grind

end Signature

/-- A call leaves the registers of its mask to the caller. A value that the caller keeps in one of
them outlives the call in full, for every body that leaves the stack as it found it, unless a wide
value is in the accumulator and the callee is narrow and saves its low half only. -/
theorem Graph.call_keeps_iff (graph : Graph) (places : Placement) (details : DirectCall)
    (signature : Signature) (register : Reg) (width : Width)
    (preserved : signature.preserve.has register) (fits : register.canHold width graph.mode) :
    (graph.writes places (.call { details with preserve := signature.preserve })).has register =
        false ∧
      (signature.Keeps graph.mode register width ↔ ¬signature.LosesHighHalf register width) := by
  refine ⟨?_, ⟨fun keeps loses => ?_, fun whole => signature.keeps_of_preserve preserved whole _⟩⟩
  · rw [writes, RegMask.has_complement, preserved]
    rfl
  · have wide : graph.mode = .wide := by
      obtain ⟨rfl, rfl, -⟩ := loses
      cases mode_eq : graph.mode with
      | wide => rfl
      | narrow =>
        rw [mode_eq] at fits
        exact absurd fits (by decide)
    rw [wide] at keeps
    exact Signature.not_keeps_of_losesHighHalf loses keeps

/-- A narrow function that saves both halves of the accumulator. -/
def savingBoth : Signature := { name := "saving", preserve := ⟨true, true, false, false⟩ }

theorem savingBoth_keeps_wide :
    savingBoth.preserve.has .a = true ∧ Reg.a.canHold .word .wide = true ∧
      savingBoth.Keeps .wide .a .word :=
  ⟨rfl, rfl,
    (Graph.call_keeps_iff { mode := .wide } (fun _ => .nowhere) {} savingBoth .a .word rfl rfl).2.mpr
      fun loses => nomatch loses.2.2.2.2⟩

/-- A function that promises the accumulator, without a parameter that would make it wide. -/
def savingLow : FunctionDecl := { name := "tick", preserve := ["a"] }

theorem savingLow_loses_high_half : ∃ signature, savingLow.resolve "tick" {} = .ok signature ∧
      signature.preserve.has .a = true ∧ Reg.a.canHold .word .wide = true ∧
      ¬signature.Keeps .wide .a .word :=
  ⟨_, rfl, rfl, rfl, Signature.not_keeps_of_losesHighHalf ⟨rfl, rfl, rfl, rfl, rfl⟩⟩

end Backend65816
