import Backend65816.Convention.Sequence
import Backend65816.Proofs.MachineRun

/-!
# Saved registers

Code that saves and code that restores bracket everything between them: if that leaves the stack as
it found it, the registers that the bracket covers come back, and the others come back as the code
between left them. Brackets nest, and the entry and exit sequences of a function are nested
brackets, up to the return.
-/

namespace Backend65816

open BitVec Machine Nat Bool

variable {m : Machine}

/-! ## Instructions of the sequences -/

namespace Machine

def status (machine : Machine) : BitVec 8 :=
  BitVec.ofNat 8 (machine.carry.toNat + 2 * machine.zero.toNat +
    if machine.mode = .narrow then 0x20 else 0)

def setStatus (machine : Machine) (byte : BitVec 8) : Machine :=
  { machine with
    carry := byte.getLsbD 0
    zero := byte.getLsbD 1
    mode := if byte.getLsbD 5 then .narrow else .wide }

@[simp]
theorem setStatus_status_mode (m other : Machine) : (other.setStatus m.status).mode = m.mode := by
  unfold setStatus status
  cases m.mode <;> cases m.carry <;> cases m.zero <;> rfl

/-- The number in the two bytes that were pushed last. -/
def pushedWord (machine : Machine) : Int := joined (machine.pushed 0) (machine.pushed 1)

def drop (machine : Machine) (bytes : Nat) : Machine :=
  { machine with stack := machine.stack + BitVec.ofNat 16 bytes }

/-- The state after an instruction of an entry or exit sequence, in code of a bank. A return takes
the return address from the stack, and the one from an interrupt the flags too. -/
def sequenceStep (program : BitVec 8) (machine : Machine) (operation : Operation) :
    Option Machine :=
  match operation.op with
  | .php => some (machine.push machine.status)
  | .plp => some ((machine.setStatus (machine.pushed 0)).drop 1)
  | .phb => some (machine.push machine.bank)
  | .phk => some (machine.push program)
  | .plb =>
    some (drop { machine with bank := machine.pushed 0, zero := machine.pushed 0 = 0 } 1)
  | .phd => some (machine.pushWord machine.direct.toNat)
  | .pld =>
    some (drop { machine with
      direct := .ofInt 16 machine.pushedWord, zero := machine.pushedWord = 0 } 2)
  | .plx => some ((machine.setX machine.pushedWord).drop 2)
  | .ply => some ((machine.setY machine.pushedWord).drop 2)
  | .rep =>
    some (if operation.touchesAccumulatorFlag then { machine with mode := .wide } else machine)
  | .sep =>
    some (if operation.touchesAccumulatorFlag then { machine with mode := .narrow } else machine)
  | .rts => some (machine.drop 2)
  | .rtl => some (machine.drop 3)
  | .rti => some ((machine.setStatus (machine.pushed 0)).drop 4)
  | op => machine.perform op

def runSequence (program : BitVec 8) (code : List Instr) (machine : Machine) : Option Machine :=
  code.foldlM
    (fun machine instr =>
      match instr with
      | .label _ => some machine
      | .run operation => machine.sequenceStep program operation)
    machine

theorem runSequence_append (program : BitVec 8) (front back : List Instr) (m : Machine) :
    m.runSequence program (front ++ back) =
      (m.runSequence program front).bind (runSequence program back) :=
  List.foldlM_append

/-! ## The stack -/

theorem stack_add_one (stack : BitVec 16) (depth : Nat) :
    stack + 1 + BitVec.ofNat 16 depth = stack + BitVec.ofNat 16 (depth + 1) := by
  rw [ofNat_add]
  grind

theorem pushed_eq (m : Machine) (depth : Nat) :
    m.pushed depth = m.memory (m.stack + BitVec.ofNat 16 (depth + 1)).toNat := by
  rw [pushed, stack_add_one]

theorem pushed_push_succ (m : Machine) (byte : BitVec 8) {depth : Nat}
    (inside : depth + 1 < 0x10000) : (m.push byte).pushed (depth + 1) = m.pushed depth := by
  have address_eq : m.stack - 1 + 1 + BitVec.ofNat 16 (depth + 1) =
      m.stack + BitVec.ofNat 16 (depth + 1) := by
    rw [sub_add_cancel]
  have apart : (m.stack + BitVec.ofNat 16 (depth + 1)).toNat ≠ m.stack.toNat := by
    grind
  rw [pushed, push, address_eq, pushed_eq]
  exact if_neg (by exact_mod_cast apart)

theorem pushed_drop (m : Machine) (bytes depth : Nat) :
    (m.drop bytes).pushed depth = m.pushed (bytes + depth) := by
  rw [pushed_eq, pushed_eq, drop, BitVec.add_assoc, ← BitVec.ofNat_add]
  rfl

theorem pushAccumulator_narrow (narrow : m.mode = .narrow) : m.pushAccumulator = m.push m.a := by
  rw [pushAccumulator, narrow]

theorem pullAccumulator_narrow (narrow : m.mode = .narrow) :
    m.pullAccumulator = drop { m with a := m.pushed 0, zero := m.pushed 0 = 0 } 1 := by
  unfold pullAccumulator setAccumulator
  rw [narrow]
  simp only [lowByte_toNat]
  rfl

/-- Contents of a register: of the accumulator its halves apart. -/
def register (machine : Machine) : Reg → Int
  | .a => machine.a.toNat
  | .b => machine.b.toNat
  | .x => machine.x.toNat
  | .y => machine.y.toNat

end Machine

/-! ## Brackets -/

/-- The code pushes bytes and leaves registers alone. -/
structure Machine.Entered (inner : Mode) (bytes : Nat) (before entered : Machine) : Prop where
  mode : entered.mode = inner
  registers : ∀ register, entered.register register = before.register register
  stack : entered.stack = before.stack - BitVec.ofNat 16 bytes
  pushed : ∀ depth, depth + bytes + 1 < 0x10000 →
    entered.pushed (bytes + depth) = before.pushed depth

/-- The code pulls bytes and restores registers. -/
structure Machine.Left (outer : Mode) (bytes : Nat) (restored : RegMask)
    (before left after : Machine) : Prop where
  mode : after.mode = outer
  /-- The registers of the mask are as they were before, the others as they were left. -/
  registers : ∀ register, after.register register =
    if restored.has register then before.register register else left.register register
  stack : after.stack = left.stack + BitVec.ofNat 16 bytes
  pushed : ∀ depth, after.pushed depth = left.pushed (bytes + depth)

/-- The mode, the stack pointer and the bytes on the stack are the same. -/
structure Machine.SameStack (bytes : Nat) (machine other : Machine) : Prop where
  mode : other.mode = machine.mode
  stack : other.stack = machine.stack
  pushed : ∀ depth < bytes, other.pushed depth = machine.pushed depth

/-- Code that saves the registers of a mask in some bytes, and code that restores them after
anything that leaves these bytes alone. -/
def Brackets (program : BitVec 8) (outer inner : Mode) (enter leave : List Instr) (bytes : Nat)
    (restored : RegMask) : Prop :=
  ∀ before : Machine, before.mode = outer → ∃ entered,
    before.runSequence program enter = some entered ∧ before.Entered inner bytes entered ∧
    ∀ left, entered.SameStack bytes left → ∃ after,
      left.runSequence program leave = some after ∧ before.Left outer bytes restored left after

namespace Brackets

variable {program : BitVec 8} {outer mid inner : Mode} {enter leave enter' leave' : List Instr}
  {bytes bytes' : Nat} {restored restored' : RegMask}

theorem nest (outside : Brackets program outer mid enter leave bytes restored)
    (inside : Brackets program mid inner enter' leave' bytes' restored')
    (few : bytes + bytes' < 0x10000) :
    Brackets program outer inner (enter ++ enter') (leave' ++ leave) (bytes + bytes')
      (restored.union restored') := by
  intro before mode
  obtain ⟨entered, entered_eq, entering, outside⟩ := outside before mode
  obtain ⟨deep, deep_eq, deepening, inside⟩ := inside entered entering.mode
  refine ⟨deep, ?_, ⟨deepening.mode, fun reg => ?_, ?_, fun depth bound => ?_⟩, fun left same => ?_⟩
  · simp_all [runSequence_append]
  · rw [deepening.registers, entering.registers]
  · rw [deepening.stack, entering.stack, ofNat_add]
    exact BitVec.sub_sub _ _ _
  · rw [show bytes + bytes' + depth = bytes' + (bytes + depth) by omega,
      deepening.pushed _ (by omega), entering.pushed _ (by omega)]
  · obtain ⟨back, back_eq, leaving⟩ := inside left
      ⟨same.mode, same.stack, fun depth bound => same.pushed depth (by omega)⟩
    have back_same : entered.SameStack bytes back := by
      refine ⟨leaving.mode.trans entering.mode.symm, ?_, fun depth bound => ?_⟩
      · rw [leaving.stack, same.stack, deepening.stack, BitVec.sub_add_cancel]
      · rw [leaving.pushed, same.pushed _ (by omega), deepening.pushed _ (by omega)]
    obtain ⟨after, after_eq, left_all⟩ := outside back back_same
    refine ⟨after, ?_, left_all.mode, fun reg => ?_, ?_, fun depth => ?_⟩
    · simp_all [runSequence_append]
    · rw [left_all.registers, leaving.registers, entering.registers, RegMask.has_union]
      grind
    · rw [left_all.stack, leaving.stack, Nat.add_comm, BitVec.ofNat_add, BitVec.add_assoc]
    · rw [left_all.pushed, leaving.pushed]
      congr 1
      omega

theorem empty : Brackets program outer outer [] [] 0 .empty := by
  intro before mode
  refine ⟨before, rfl, ⟨mode, fun _ => rfl, ?_, fun depth _ => ?_⟩, fun left same => ?_⟩
  · simp
  · rw [zero_add]
  · refine ⟨left, rfl, same.mode.trans mode, fun reg => ?_, by simp, fun depth => ?_⟩
    all_goals simp

/-- What was pushed is pulled by something that changes neither mode nor memory. -/
theorem pulled {Saved : Type} (saved found : Machine → Saved) (set : Machine → Saved → Machine)
    (pushes : ∀ m : Machine, m.mode = outer → ∃ entered,
      m.runSequence program enter = some entered ∧ m.Entered outer bytes entered ∧
        ∀ left, entered.SameStack bytes left → found left = saved m)
    (pulls : ∀ m : Machine, m.mode = outer →
      m.runSequence program leave = some ((set m (found m)).drop bytes))
    (frame : ∀ m num, (set m num).mode = m.mode ∧
      (set m num).stack = m.stack ∧ (set m num).memory = m.memory)
    (regs : ∀ (m other : Machine) reg, (set other (saved m)).register reg =
      if restored.has reg then m.register reg else other.register reg) :
    Brackets program outer outer enter leave bytes restored := by
  intro before mode
  obtain ⟨entered, entered_eq, entering, pulled⟩ := pushes before mode
  refine ⟨entered, entered_eq, entering, fun left same => ?_⟩
  have left_mode : left.mode = outer := same.mode.trans entering.mode
  obtain ⟨same_mode, same_stack, same_memory⟩ := frame left (saved before)
  refine ⟨_, pulls left left_mode, ?_, fun reg => ?_, ?_, fun depth => ?_⟩ <;> rw [pulled left same]
  · exact same_mode.trans left_mode
  · have restoring := regs before left reg
    cases reg <;> exact restoring
  · rw [drop, same_stack]
  · rw [pushed_drop, pushed_eq, pushed_eq, same_stack, same_memory]

theorem pushedByte {byte : BitVec 8} (flag : Bool) (mode : mid = inner)
    (pushes : m.runSequence program enter = some { m.push byte with zero := flag, mode := mid }) :
    ∃ entered, m.runSequence program enter = some entered ∧ m.Entered inner 1 entered ∧
      ∀ left, entered.SameStack 1 left → left.pushed 0 = byte := by
  refine ⟨_, pushes, ⟨mode, fun reg => ?_, rfl, fun depth bound => ?_⟩, fun left same => ?_⟩
  · cases reg <;> rfl
  · rw [add_comm]
    exact m.pushed_push_succ _ (by omega)
  · rw [same.pushed 0 one_pos]
    exact m.pushed_push

theorem pushedWord {num : Int} (mode : m.mode = outer)
    (pushes : m.runSequence program enter = some (m.pushWord num)) :
    ∃ entered, m.runSequence program enter = some entered ∧ m.Entered outer 2 entered ∧
      ∀ left, entered.SameStack 2 left → left.pushedWord = num % 0x10000 := by
  refine ⟨_, pushes, ⟨mode, fun reg => ?_, ?_, fun depth bound => ?_⟩, fun left same => ?_⟩
  · cases reg <;> rfl
  · change m.stack - 1 - 1 = _
    rw [sub_sub]
    rfl
  · grind [Machine.pushWord, pushed_push_succ]
  · rw [Machine.pushedWord, same.pushed 0 (by omega), same.pushed 1 (by omega), Machine.pushWord,
      pushed_push, pushed_push_succ _ _ (by omega), pushed_push,
      joined_lowByte_highByte]

theorem indexX : Brackets program outer outer [.plain .phx] [.plain .plx] 2 (.single .x) := by
  refine pulled (fun m => (m.x.toNat : Int) % 0x10000) _ setX
    (fun _ mode => pushedWord mode rfl) (fun _ _ => rfl) (fun _ _ => ⟨rfl, rfl, rfl⟩)
    fun m other reg => ?_
  cases reg with
  | a | b | y => rfl
  | x =>
    change ((BitVec.ofInt 16 _).toNat : Int) = m.x.toNat
    rw [toNat_ofInt_sixteen]
    omega

theorem indexY : Brackets program outer outer [.plain .phy] [.plain .ply] 2 (.single .y) := by
  refine pulled (fun m => (m.y.toNat : Int) % 0x10000) _ setY
    (fun _ mode => pushedWord mode rfl) (fun _ _ => rfl) (fun _ _ => ⟨rfl, rfl, rfl⟩)
    fun m other reg => ?_
  cases reg with
  | a | b | x => rfl
  | y =>
    change ((BitVec.ofInt 16 _).toNat : Int) = m.y.toNat
    rw [toNat_ofInt_sixteen]
    omega

theorem directPage : Brackets program outer outer [.plain .phd] [.plain .pld] 2 .empty := by
  refine pulled (fun m => (m.direct.toNat : Int) % 0x10000) _
    (fun m num => { m with direct := .ofInt 16 num, zero := num = 0 })
    (fun _ mode => pushedWord mode rfl) (fun _ _ => rfl) (fun _ _ => ⟨rfl, rfl, rfl⟩)
    fun m other reg => ?_
  cases reg <;> rfl

theorem dataBank : Brackets program outer outer [.plain .phb] [.plain .plb] 1 .empty := by
  refine pulled (fun m => m.bank) _ (fun m byte => { m with bank := byte, zero := byte = 0 })
    (fun m mode => pushedByte m.zero mode rfl) (fun _ _ => rfl) (fun _ _ => ⟨rfl, rfl, rfl⟩)
    fun m other reg => ?_
  cases reg <;> rfl

theorem programBank : Brackets program outer outer [.plain .phk, .plain .plb] [] 0 .empty := by
  intro before mode
  refine ⟨_, rfl, ⟨mode, fun reg => ?_, ?_, fun depth bound => ?_⟩, fun left same => ?_⟩
  · cases reg <;> rfl
  · change before.stack - 1 + 1 = _
    rw [sub_add_cancel]
    simp
  · have below := before.pushed_push_succ program (show depth + 1 < 0x10000 by omega)
    rw [pushed_drop, zero_add, add_comm]
    exact below
  · refine ⟨left, rfl, same.mode.trans mode, fun reg => ?_, by simp, fun depth => ?_⟩
    all_goals simp

theorem lowHalf : Brackets program .narrow .narrow [.plain .pha] [.plain .pla] 1 (.single .a) := by
  refine pulled (fun m => m.a) _ (fun m byte => { m with a := byte, zero := byte = 0 })
    (fun m narrow => pushedByte m.zero narrow ?_) (fun m narrow => ?_) (fun _ _ => ⟨rfl, rfl, rfl⟩)
    fun m other reg => ?_
  · exact congrArg some (pushAccumulator_narrow narrow)
  · change some m.pullAccumulator = _
    rw [pullAccumulator_narrow narrow]
  · cases reg <;> rfl

theorem highHalf : Brackets program .narrow .narrow [.plain .xba, .plain .pha, .plain .xba]
      [.plain .xba, .plain .pla, .plain .xba] 1 (.single .b) := by
  refine pulled (fun m => m.b) _ (fun m byte => { m with b := byte, zero := m.a = 0 })
    (fun m narrow => pushedByte (m.a = 0) narrow ?_) (fun m narrow => ?_)
    (fun _ _ => ⟨rfl, rfl, rfl⟩) fun m other reg => ?_
  · change some m.exchange.pushAccumulator.exchange = _
    have exchanged : m.exchange.mode = .narrow := narrow
    rw [pushAccumulator_narrow exchanged]
    rfl
  · change some m.exchange.pullAccumulator.exchange = _
    have exchanged : m.exchange.mode = .narrow := narrow
    rw [pullAccumulator_narrow exchanged]
    rfl
  · cases reg <;> rfl

theorem wholeAccumulator :
    Brackets program .wide .wide [.plain .pha] [.plain .pla] 2 ⟨true, true, false, false⟩ := by
  refine pulled (fun m => m.whole % 0x10000) _
    (fun m num =>
      { m with
        a := lowByte num
        b := highByte num
        zero := lowByte num = 0 ∧ highByte num = 0 })
    (fun m wide => pushedWord wide ?_) (fun m wide => ?_) (fun _ _ => ⟨rfl, rfl, rfl⟩)
    fun m other reg => ?_
  · change some m.pushAccumulator = _
    rw [pushAccumulator, wide]
  · change some m.pullAccumulator = _
    simp only [pullAccumulator, setAccumulator, wide]
    rfl
  · have cut : m.whole % 0x10000 = m.whole := Int.emod_eq_of_lt joined_nonneg joined_lt
    rw [cut]
    cases reg with
    | a => exact congrArg (fun byte : BitVec 8 => (byte.toNat : Int)) (lowByte_joined _ _)
    | b => exact congrArg (fun byte : BitVec 8 => (byte.toNat : Int)) (highByte_joined _ _)
    | x | y => rfl

theorem switch (mode : Mode) :
    Brackets program .wide mode (Signature.codeIf (mode = .narrow) [.narrowAccumulator])
      (Signature.codeIf (mode = .narrow) [.widenAccumulator]) 0 .empty := by
  cases mode with
  | wide => exact empty
  | narrow =>
    intro before _
    refine ⟨{ before with mode := .narrow }, rfl,
      ⟨rfl, fun reg => ?_, ?_, fun depth _ => ?_⟩, fun left _ => ?_⟩
    · cases reg <;> rfl
    · simp
    · rw [zero_add]
      rfl
    · refine ⟨{ left with mode := .wide }, rfl, rfl, fun reg => ?_, ?_, fun depth => ?_⟩
      · cases reg <;> rfl
      · simp
      · rw [zero_add]
        rfl

theorem flags (mode : Mode) :
    Brackets program outer mode [.plain .php, .selectMode mode] [.plain .plp] 1 .empty := by
  intro before before_mode
  have selected : before.runSequence program [.plain .php, .selectMode mode] =
      some { before.push before.status with mode } := by
    cases mode <;> rfl
  obtain ⟨entered, entered_eq, entering, pulled⟩ := pushedByte _ rfl selected
  refine ⟨entered, entered_eq, entering, fun left same => ?_⟩
  refine ⟨_, rfl, ?_, fun reg => ?_, rfl, fun depth => ?_⟩
  · rw [pulled left same]
    exact (before.setStatus_status_mode left).trans before_mode
  · cases reg <;> rfl
  · rw [pushed_drop]
    rfl

theorem codeIf (cond : Bool) (brackets : Brackets program outer outer enter leave bytes restored) :
    Brackets program outer outer (Signature.codeIf cond enter)
      (Signature.codeIf cond leave) (bytes * cond.toNat)
      (if cond then restored else .empty) := by
  cases cond with
  | true =>
    rw [toNat_true, mul_one]
    exact brackets
  | false => exact empty

end Brackets

/-! ## The sequences of a function -/

namespace Signature

variable {sig : Signature}

/-- Halves of the accumulator that the exit sequence restores. -/
def restoredHalves (signature : Signature) : RegMask :=
  let hasA := signature.preserve.has .a
  let hasB := signature.preserve.has .b
  match signature.mode with
  | .wide => ⟨hasA || hasB, hasA || hasB, false, false⟩
  | .narrow => ⟨hasA, hasB, false, false⟩

def restored (signature : Signature) : RegMask :=
  if signature.interrupt.isSome then .full
  else ⟨signature.restoredHalves.hasA, signature.restoredHalves.hasB, signature.preserve.hasX,
    signature.preserve.hasY⟩

theorem brackets_accumulator (sig : Signature) (program : BitVec 8) :
    Brackets program sig.mode sig.mode sig.saveAccumulator
      sig.restoreAccumulator sig.savedAccumulatorBytes sig.restoredHalves := by
  unfold saveAccumulator restoreAccumulator savedAccumulatorBytes restoredHalves
  cases sig.mode with
  | wide =>
    cases sig.preserve.has .a <;> cases sig.preserve.has .b
    · exact .empty
    all_goals exact .wholeAccumulator
  | narrow =>
    cases sig.preserve.has .a <;> cases sig.preserve.has .b
    · exact .empty
    · exact .highHalf
    · exact .lowHalf
    · exact Brackets.lowHalf.nest .highHalf (by decide)

theorem savedAccumulatorBytes_le (sig : Signature) : sig.savedAccumulatorBytes ≤ 2 := by
  unfold savedAccumulatorBytes
  cases sig.mode <;> cases sig.preserve.has .a <;>
    cases sig.preserve.has .b <;> decide

/-- Code that saves what the function keeps for its caller, in its own mode. -/
def saveKept (signature : Signature) : List Instr :=
  signature.saveAccumulator ++ codeIf (signature.preserve.has .x) [.plain .phx] ++
    codeIf (signature.preserve.has .y) [.plain .phy]

/-- Code that restores what the function keeps for its caller. -/
def restoreKept (signature : Signature) : List Instr :=
  codeIf (signature.preserve.has .y) [.plain .ply] ++
    (codeIf (signature.preserve.has .x) [.plain .plx] ++ signature.restoreAccumulator)

theorem brackets_kept (called : sig.interrupt = none) (program : BitVec 8) :
    Brackets program sig.mode sig.mode
      (sig.saveKept ++ codeIf (sig.dataBank = .set) [.plain .phb, .plain .phk, .plain .plb])
      (codeIf (sig.dataBank = .set) [.plain .plb] ++ sig.restoreKept)
      (sig.savedBytes - 1) sig.restored := by
  have bank : Brackets program sig.mode sig.mode
      [.plain .phb, .plain .phk, .plain .plb] [.plain .plb] 1 .empty :=
    Brackets.dataBank.nest .programBank (by decide)
  have few : sig.savedAccumulatorBytes ≤ 2 := sig.savedAccumulatorBytes_le
  have x_le := toNat_le (sig.preserve.has .x)
  have y_le := toNat_le (sig.preserve.has .y)
  have bank_le := toNat_le (decide (sig.dataBank = .set))
  have all := (((sig.brackets_accumulator program).nest
    (Brackets.indexX.codeIf (sig.preserve.has .x)) (by omega)).nest
    (Brackets.indexY.codeIf (sig.preserve.has .y)) (by omega)).nest
    (bank.codeIf (sig.dataBank = .set)) (by omega)
  have none_some : sig.interrupt.isSome = false := by rw [called]; rfl
  have bytes_eq : sig.savedBytes - 1 = sig.savedAccumulatorBytes +
      2 * (sig.preserve.has .x).toNat + 2 * (sig.preserve.has .y).toNat +
      1 * (decide (sig.dataBank = .set)).toNat := by
    rw [savedBytes, none_some]
    cases sig.dataBank <;> simp <;> omega
  have restored_eq : sig.restored = (((sig.restoredHalves.union
      (if sig.preserve.has .x then .single .x else .empty)).union
      (if sig.preserve.has .y then .single .y else .empty)).union
      (if decide (sig.dataBank = .set) then .empty else .empty)) := by
    unfold restored restoredHalves
    rw [none_some, ite_self]
    generalize sig.preserve = mask
    obtain ⟨hasA, hasB, hasX, hasY⟩ := mask
    cases sig.mode <;> cases hasA <;> cases hasB <;> cases hasX <;> cases hasY <;> rfl
  rw [bytes_eq, restored_eq]
  exact all

theorem savedBytes_pos (sig : Signature) : 1 ≤ sig.savedBytes := by
  unfold savedBytes
  split <;> omega

theorem savedBytes_le (sig : Signature) : sig.savedBytes ≤ 9 := by
  have few : sig.savedAccumulatorBytes ≤ 2 := sig.savedAccumulatorBytes_le
  have x_le := toNat_le (sig.preserve.has .x)
  have y_le := toNat_le (sig.preserve.has .y)
  grind [savedBytes]

section

variable (called : sig.interrupt = none)
include called

theorem entrySequence_called :
    sig.entrySequence = [.plain .php, .selectMode sig.mode] ++ (sig.saveKept ++
      codeIf (sig.dataBank = .set) [.plain .phb, .plain .phk, .plain .plb]) := by
  simp_all [entrySequence, saveKept]

theorem exitSequence_called : sig.exitSequence = ((codeIf (sig.dataBank = .set) [.plain .plb] ++
      sig.restoreKept) ++ [.plain .plp]) ++ [.plain (if sig.far then .rtl else .rts)] := by
  simp_all [exitSequence, restoreKept]

theorem brackets_called (program : BitVec 8) {outer : Mode} :
    ∃ leave, sig.exitSequence = leave ++ [.plain (if sig.far then .rtl else .rts)] ∧
      Brackets program outer sig.mode sig.entrySequence leave sig.savedBytes sig.restored := by
  have flags : Brackets program outer sig.mode _ _ 1 .empty := .flags sig.mode
  have pos := sig.savedBytes_pos
  have few := sig.savedBytes_le
  have all := flags.nest (brackets_kept called program) (by omega)
  have empty_union : RegMask.empty.union sig.restored = sig.restored := rfl
  grind [entrySequence_called, exitSequence_called]

end

theorem brackets_handler (handler : sig.interrupt.isSome = true) {program : BitVec 8} :
    ∃ enter leave, sig.entrySequence = .immediate .rep 0x30 1 :: enter ∧
      sig.exitSequence = leave ++ [.plain .rti] ∧
      Brackets program .wide sig.mode enter leave sig.savedBytes sig.restored := by
  have acc : Brackets program .wide .wide _ _ 2 _ := .wholeAccumulator
  have whole := (((((acc.nest .indexX (by decide)).nest
    Brackets.indexY (by decide)).nest .dataBank (by decide)).nest
    Brackets.directPage (by decide)).nest
    (Brackets.programBank.codeIf (sig.dataBank = .set)) (by omega)).nest
    (.switch sig.mode) (by omega)
  rw [entrySequence, exitSequence, savedBytes, restored, if_pos handler, if_pos handler,
    if_pos handler, if_pos handler]
  rw [Nat.zero_mul] at whole
  refine ⟨_, _, ?_, ?_, whole⟩
  · rfl
  · simp only [codeIf, ite_self, List.append_assoc]
    rfl

end Signature

end Backend65816
