import Backend65816.Proofs.Conventions
import Backend65816.Proofs.RegistersAcrossCalls

/-!
# What entry and exit restore

Between the sequences of a function its body may do anything that leaves the stack as it found it.
Behind the exit sequence, up to the return, the stack pointer, the registers of the mask and, unless
the function is a handler, the flags are those of the caller. A handler restores the data bank and
the direct page, and a function that sets the data bank restores it; a function that keeps the data
bank leaves it as its body does.
-/

namespace Backend65816

open List Machine

variable {program : BitVec 8}

/-- The instruction pushes, pulls or exchanges contents of the accumulator and the index
registers. -/
def Instr.movesRegister : Instr → Bool
  | .run operation => operation.op ∈ [.pha, .pla, .xba, .phx, .phy, .plx, .ply]
  | .label _ => false

namespace Machine

variable {program : BitVec 8} {m after : Machine}

theorem sequenceStep_frame {operation : Operation} (moves : (Instr.run operation).movesRegister)
    (stepped : m.sequenceStep program operation = some after) :
    after.bank = m.bank ∧ after.direct = m.direct := by
  simp only [Instr.movesRegister, mem_cons, not_mem_nil, or_false, decide_eq_true_eq] at moves
  unfold sequenceStep at stepped
  rcases moves with op | op | op | op | op | op | op <;> rw [op] at stepped <;> cases stepped
  case inl =>
    unfold pushAccumulator
    split <;> exact ⟨rfl, rfl⟩
  case inr.inl =>
    unfold pullAccumulator setAccumulator
    split <;> split <;> exact ⟨rfl, rfl⟩
  all_goals exact ⟨rfl, rfl⟩

theorem runSequence_frame {code : List Instr} (moves : ∀ instr ∈ code, instr.movesRegister)
    (run : m.runSequence program code = some after) :
    after.bank = m.bank ∧ after.direct = m.direct := by
  induction code generalizing m with
  | nil =>
    cases run
    exact ⟨rfl, rfl⟩
  | cons instr code ih =>
    obtain ⟨moves, others⟩ := forall_mem_cons.mp moves
    cases instr with
    | label => cases moves
    | run op =>
      obtain ⟨mid, stepped, rest⟩ := Option.bind_eq_some_iff.mp run
      obtain ⟨bank, direct⟩ := ih others rest
      obtain ⟨bank', direct'⟩ := sequenceStep_frame moves stepped
      simp_all

theorem runSequence_append_eq_some {front back : List Instr}
    (run : m.runSequence program (front ++ back) = some after) :
    ∃ mid, m.runSequence program front = some mid ∧ mid.runSequence program back = some after :=
  Option.bind_eq_some_iff.mp ((runSequence_append ..).symm.trans run)

@[simp]
theorem status_setStatus (m other : Machine) : (other.setStatus m.status).status = m.status := by
  unfold setStatus status
  cases m.mode <;> cases m.carry <;> cases m.zero <;> rfl

end Machine

namespace Signature

def keptWidth (signature : Signature) : Reg → Width
  | .a => signature.mode.width
  | .b => .byte
  | .x | .y => .word

def restoresBank (signature : Signature) : Bool :=
  signature.interrupt.isSome || signature.dataBank = .set

/-- What the sequences restore, between the state in which a function is entered, the one in which
its body ends, and the one in which it returns. -/
structure RestoresState (signature : Signature) (before left after : Machine) : Prop where
  stack : after.stack = before.stack
  bank : after.bank = if signature.restoresBank then before.bank else left.bank
  direct : signature.interrupt.isSome → after.direct = before.direct
  preserved : ∀ register, signature.preserve.has register →
    after.held register (signature.keptWidth register) =
      before.held register (signature.keptWidth register)
  returned : ∀ slot ∈ signature.returns, ∀ register, slot.location = .reg register →
    after.held register slot.width = left.held register slot.width
  status : signature.interrupt = none → after.status = before.status

variable {sig : Signature} {before left after : Machine}

theorem RestoresState.of_registers {fn : FunctionDecl} {symbol : String} {unit : CompilationUnit}
    (resolved : fn.resolve symbol unit = .ok sig) (stack : after.stack = before.stack)
    (bank : after.bank = if sig.restoresBank then before.bank else left.bank)
    (direct : sig.interrupt.isSome → after.direct = before.direct)
    (status : sig.interrupt = none → after.status = before.status)
    (regs : ∀ reg, after.register reg = if sig.restored.has reg then before.register reg
      else left.register reg) : sig.RestoresState before left after := by
  have kept (reg) (mem : sig.restored.has reg) : after.register reg = before.register reg := by
    rw [regs, if_pos mem]
  have other (reg) (mem : sig.restored.has reg = false) :
      after.register reg = left.register reg := by
    rw [regs, mem]
    rfl
  refine ⟨stack, bank, direct, fun reg preserved => ?_, fun slot mem reg same => ?_, status⟩
  · refine held_eq (kept _ (restored_of_preserve preserved)) fun is_a word => ?_
    subst is_a
    refine kept _ (restored_b preserved (fun loses => ?_) rfl)
    rw [keptWidth, loses.2.2.1] at word
    cases word
  · obtain ⟨preserve, fits, apart, called⟩ :=
      FunctionDecl.resolve_returns resolved slot mem reg same
    have narrow := fun is_b => (fits.half is_b).2
    have overwritten : sig.restored.has reg = false := by
      clear kept other regs
      unfold restored restoredHalves
      cases mode_eq : sig.mode <;> cases reg <;> simp_all [RegMask.has]
    refine held_eq (other _ overwritten) fun is_a word => ?_
    subst is_a
    have wide : sig.mode = .wide := by
      cases mode_eq : sig.mode with
      | wide => rfl
      | narrow =>
        rw [fits.accumulator rfl, mode_eq] at word
        cases word
    refine other _ ?_
    rw [restored, called, restoredHalves, wide, preserve, apart rfl wide]
    rfl

theorem kept_moves (sig : Signature) : (∀ instr ∈ sig.saveKept, instr.movesRegister) ∧
    ∀ instr ∈ sig.restoreKept, instr.movesRegister := by
  unfold saveKept restoreKept saveAccumulator restoreAccumulator codeIf
  cases sig.mode <;> cases sig.preserve.has .a <;> cases sig.preserve.has .b <;>
    cases sig.preserve.has .x <;> cases sig.preserve.has .y <;> decide

/-- The data bank that the function leaves is the one on the stack, if it sets one of its own. -/
theorem bank_restored {entered : Machine}
    (entered_eq : before.runSequence program (sig.saveKept ++
      codeIf (sig.dataBank = .set) [.plain .phb, .plain .phk, .plain .plb]) = some entered)
    (top : sig.dataBank = .set → left.pushed 0 = entered.pushed 0)
    (after_eq : left.runSequence program (codeIf (sig.dataBank = .set) [.plain .plb] ++
      sig.restoreKept) = some after) :
    after.bank = if sig.dataBank = .set then before.bank else left.bank := by
  obtain ⟨saved, saved_eq, entered_eq⟩ := runSequence_append_eq_some entered_eq
  obtain ⟨banked, banked_eq, after_eq⟩ := runSequence_append_eq_some after_eq
  rw [(runSequence_frame sig.kept_moves.2 after_eq).1]
  cases bank_eq : sig.dataBank with
  | keep =>
    rw [bank_eq] at banked_eq
    cases banked_eq
    rfl
  | set =>
    have top := top bank_eq
    rw [bank_eq] at banked_eq entered_eq
    cases banked_eq
    cases entered_eq
    rw [top, ← (runSequence_frame sig.kept_moves.1 saved_eq).1, pushed_drop]
    exact (pushed_push_succ _ _ (by decide)).trans saved.pushed_push

theorem restores_called (called : sig.interrupt = none) :
    ∃ entered leave, before.runSequence program sig.entrySequence = some entered ∧
      sig.exitSequence = leave ++ [.plain (if sig.far then .rtl else .rts)] ∧
      before.Entered sig.mode sig.savedBytes entered ∧
      ∀ left, entered.SameStack sig.savedBytes left → ∃ after,
        left.runSequence program leave = some after ∧
        before.Left before.mode sig.savedBytes sig.restored left after ∧
        after.bank = (if sig.dataBank = .set then before.bank else left.bank) ∧
        after.status = before.status := by
  have pos := sig.savedBytes_pos
  have few := sig.savedBytes_le
  obtain ⟨leave, exit_eq, brackets⟩ := brackets_called called program
  obtain ⟨entered, entered_eq, entering, leaving⟩ := brackets before rfl
  have leave_eq := append_cancel_right (exit_eq.symm.trans (exitSequence_called called))
  let selected : Machine := { before.push before.status with mode := sig.mode }
  have selected_eq : before.runSequence program [.plain .php, .selectMode sig.mode] =
      some selected := by
    cases mode_eq : sig.mode <;> simp only [selected, mode_eq] <;> rfl
  obtain ⟨deep, kept_eq, deepening, inside⟩ := brackets_kept called program selected rfl
  obtain rfl : entered = deep := by
    grind [entrySequence_called, runSequence_append]
  refine ⟨entered, leave, entered_eq, exit_eq, entering, fun left same => ?_⟩
  obtain ⟨after, after_eq, left_all⟩ := leaving left same
  obtain ⟨back, back_eq, left_kept⟩ := inside left
    ⟨same.mode, same.stack, fun depth bound => same.pushed depth (by omega)⟩
  have run_eq := after_eq
  rw [leave_eq, runSequence_append, back_eq] at run_eq
  cases run_eq
  refine ⟨_, after_eq, left_all, ?_, ?_⟩
  · have banked := bank_restored kept_eq (fun _ => same.pushed 0 pos) back_eq
    exact banked
  · have pulled : back.pushed 0 = before.status := by
      rw [left_kept.pushed, same.pushed _ (by omega), deepening.pushed _ (by omega)]
      exact before.pushed_push
    rw [pulled]
    exact before.status_setStatus back

/-- A handler restores the direct page and the data bank behind the code that its body runs in. -/
theorem restores_handler (handler : sig.interrupt.isSome = true) :
    ∃ entered leave, before.runSequence program sig.entrySequence = some entered ∧
      sig.exitSequence = leave ++ [.plain .rti] ∧
      { before with mode := .wide }.Entered sig.mode sig.savedBytes entered ∧
      ∀ left, entered.SameStack sig.savedBytes left → ∃ after,
        left.runSequence program leave = some after ∧
        { before with mode := .wide }.Left .wide sig.savedBytes sig.restored left after ∧
        after.bank = before.bank ∧ after.direct = before.direct := by
  have saved_eq : sig.savedBytes = 9 := by rw [savedBytes, if_pos handler]
  obtain ⟨enter, leave, entry_eq, exit_eq, brackets⟩ := brackets_handler handler
  obtain ⟨entered, entered_eq, entering, leaving⟩ := brackets { before with mode := .wide } rfl
  have run_entry : before.runSequence program sig.entrySequence = some entered := by
    rw [entry_eq]
    exact entered_eq
  refine ⟨entered, leave, run_entry, exit_eq, entering, fun left same => ?_⟩
  obtain ⟨after, after_eq, left_all⟩ := leaving left same
  refine ⟨after, after_eq, left_all, ?_⟩
  have enter_eq : enter = [.plain .pha, .plain .phx, .plain .phy] ++ ([.plain .phb, .plain .phd] ++
      (codeIf (sig.dataBank = .set) [.plain .phk, .plain .plb] ++
        codeIf (sig.mode = .narrow) [.narrowAccumulator])) := by
    simp_all [entrySequence, interruptEntry]
  have leave_eq : leave = codeIf (sig.mode = .narrow) [.widenAccumulator] ++
      ([.plain .pld, .plain .plb] ++ [.plain .ply, .plain .plx, .plain .pla]) := by
    rw [exitSequence, if_pos handler] at exit_eq
    refine append_cancel_right (exit_eq.symm.trans ?_)
    simp only [append_assoc]
    rfl
  rw [enter_eq] at entered_eq
  obtain ⟨saved, saving, entered_eq⟩ := runSequence_append_eq_some entered_eq
  obtain ⟨based, basing, entered_eq⟩ := runSequence_append_eq_some entered_eq
  obtain ⟨bank_eq, direct_eq⟩ := runSequence_frame (by decide) saving
  rw [leave_eq] at after_eq
  obtain ⟨wide, widening, after_eq⟩ := runSequence_append_eq_some after_eq
  obtain ⟨back, pulling, after_eq⟩ := runSequence_append_eq_some after_eq
  obtain ⟨bank_eq', direct_eq'⟩ := runSequence_frame (by decide) after_eq
  have pushed_eq (depth) (bound : depth < 3) : wide.pushed depth = based.pushed depth := by
    have same_pushed : wide.pushed depth = left.pushed depth := by
      cases mode_eq : sig.mode <;> rw [mode_eq] at widening <;> cases widening <;> rfl
    have based_mode : based.mode = .wide := by
      cases saving
      cases basing
      rfl
    obtain ⟨found, found_eq, inner, -⟩ :=
      (Brackets.programBank.codeIf (sig.dataBank = .set)).nest (.switch sig.mode)
        (by simp) based based_mode
    obtain rfl : entered = found := Option.some.inj (entered_eq.symm.trans found_eq)
    rw [same_pushed, same.pushed _ (by omega)]
    have := inner.pushed depth (by simp; omega)
    simpa using this
  cases basing
  cases pulling
  rw [bank_eq', direct_eq']
  constructor
  · refine .trans ?_ bank_eq
    rw [pushed_drop]
    refine (pushed_eq 2 (by decide)).trans ?_
    rw [Machine.pushWord, pushed_push_succ _ _ (by decide),
      pushed_push_succ _ _ (by decide), pushed_push]
  · refine .trans ?_ direct_eq
    change BitVec.ofInt 16 (joined (wide.pushed 0) (wide.pushed 1)) = saved.direct
    rw [pushed_eq 0 (by decide), pushed_eq 1 (by decide), Machine.pushWord, pushed_push,
      pushed_push_succ _ _ (by decide), pushed_push, joined_lowByte_highByte]
    change BitVec.ofInt 16 (saved.direct.toNat % 0x10000) = saved.direct
    refine BitVec.eq_of_toNat_eq ?_
    have := toNat_ofInt_sixteen (saved.direct.toNat % 0x10000)
    omega

/-- The sequences restore what they promise: for every resolved convention and every state in which
the function is entered, and whatever its body does that leaves the stack as it found it. -/
theorem sequences_restore {function : FunctionDecl} {symbol : String} {unit : CompilationUnit}
    (resolved : function.resolve symbol unit = .ok signature) (program : BitVec 8)
    (before : Machine) :
    ∃ entered leave exit, before.runSequence program signature.entrySequence = some entered ∧
      entered.mode = signature.mode ∧
      entered.stack = before.stack - BitVec.ofNat 16 signature.savedBytes ∧
      signature.exitSequence = leave ++ [.plain exit] ∧ exit ∈ [.rts, .rtl, .rti] ∧
      ∀ left, entered.SameStack signature.savedBytes left → ∃ after,
        left.runSequence program leave = some after ∧
        signature.RestoresState before left after := by
  cases interrupt_eq : signature.interrupt with
  | none =>
    obtain ⟨entered, leave, entered_eq, exit_eq, entering, leaving⟩ :=
      restores_called interrupt_eq
    refine ⟨entered, leave, _, entered_eq, entering.mode, entering.stack, exit_eq, ?_,
      fun left same => ?_⟩
    · cases signature.far <;> decide
    · obtain ⟨after, after_eq, left_all, bank, status⟩ := leaving left same
      refine ⟨after, after_eq, .of_registers resolved ?_ ?_ ?_ (fun _ => status) left_all.registers⟩
      · rw [left_all.stack, same.stack, entering.stack, BitVec.sub_add_cancel]
      · rw [bank, restoresBank, interrupt_eq]
        simp
      · rw [interrupt_eq]
        nofun
  | some vector =>
    have handler : signature.interrupt.isSome = true := by rw [interrupt_eq]; rfl
    obtain ⟨entered, leave, entered_eq, exit_eq, entering, leaving⟩ :=
      restores_handler handler
    refine ⟨entered, leave, _, entered_eq, entering.mode, entering.stack, exit_eq, by decide,
      fun left same => ?_⟩
    obtain ⟨after, after_eq, left_all, bank, direct⟩ := leaving left same
    refine ⟨after, after_eq, .of_registers resolved ?_ ?_ (fun _ => direct) ?_ fun register => ?_⟩
    · rw [left_all.stack, same.stack, entering.stack, BitVec.sub_add_cancel]
    · rw [bank, restoresBank, handler]
      rfl
    · rw [interrupt_eq]
      nofun
    · have registers := left_all.registers register
      cases register <;> exact registers

end Signature

def tickHandler : FunctionDecl := { name := "tick", interrupt := "nmi", dataBank := "set" }

theorem tickHandler_restores :
    let before : Machine := ⟨0, 0, 5, 0, 0x1ff, 0, 2, .narrow, false, false, fun _ => 0⟩
    ∃ signature, tickHandler.resolve "tick" {} = .ok signature ∧
      ∃ entered leave exit, before.runSequence 1 signature.entrySequence = some entered ∧
        entered.stack = 0x1f6 ∧ signature.exitSequence = leave ++ [.plain exit] ∧
        ∃ after, { entered with x := 7, bank := 9, direct := 3 }.runSequence 1 leave = some after ∧
          after.stack = 0x1ff ∧ after.bank = 2 ∧ after.direct = 0 ∧ after.held .x .word = 5 := by
  intro before
  have resolved : tickHandler.resolve "tick" {} = .ok _ := rfl
  obtain ⟨entered, leave, exit, entered_eq, -, stack_eq, exit_eq, -, restores⟩ :=
    Signature.sequences_restore resolved 1 before
  obtain ⟨after, after_eq, restored⟩ :=
    restores { entered with x := 7, bank := 9, direct := 3 } ⟨rfl, rfl, fun _ _ => rfl⟩
  exact ⟨_, rfl, entered, leave, exit, entered_eq, stack_eq.trans (by decide), exit_eq, after,
    after_eq, restored.stack, restored.bank, restored.direct rfl, restored.preserved .x rfl⟩

def plainTick : FunctionDecl := { name := "tick" }

/-- Nothing restores the data bank for a function that keeps it, if its body sets another one. -/
theorem plainTick_leaves_bank : ∃ signature, plainTick.resolve "tick" {} = .ok signature ∧
      ∃ before entered left after : Machine,
        before.runSequence 0 signature.entrySequence = some entered ∧
        entered.SameStack signature.savedBytes left ∧
        signature.exitSequence = [.plain .plp, .plain .rts] ∧
        left.runSequence 0 [.plain .plp] = some after ∧ after.bank ≠ before.bank := by
  refine ⟨_, rfl, ⟨0, 0, 0, 0, 0x1ff, 0, 0, .narrow, false, false, fun _ => 0⟩, _,
    { (_ : Machine) with bank := 1 }, _, rfl, ⟨rfl, rfl, fun _ _ => rfl⟩, rfl, rfl, ?_⟩
  decide

end Backend65816
