import Backend65816.Proofs.LoweringOperands

/-!
# Code of operations

An operation on two literals is a constant. An operation on two values is one instruction, in which
operands may have changed sides if the operation commutes. A shift by the width or more is a
constant or copies the sign. Conjunctions and disjunctions skip their right side.
-/

namespace Backend65816

open Lower CompilationUnit Meaning

variable {kind : BinKind} {expr : Expr} {num : Int} {literal : Int × Ty} {found : Operands}
  {type : Ty} {width : Width}

variable {unit : CompilationUnit} {sig : Signature} {names : List String}

/-! ## Instructions -/

theorem BinKind.apply_comm (commutative : kind.isCommutative = true) (width : Width)
    (left right : Int) : kind.apply width left right = kind.apply width right left := by
  cases kind with
  | add => rw [apply, apply, Int.add_comm]
  | and => rw [apply, apply, Nat.and_comm]
  | or => rw [apply, apply, Nat.or_comm]
  | xor => rw [apply, apply, Nat.xor_comm]
  | sub | shl | shr | sar => cases commutative

theorem BinKind.isBitwise_of_isShift (shift : kind.isShift = true) : kind.isBitwise = false := by
  cases kind with
  | shl | shr | sar => rfl
  | add | sub | and | or | xor => cases shift

theorem BinKind.apply_sides (swapped : found.swapped = true → kind.isCommutative = true)
    (width : Width) (vals : Int × Int) :
    kind.apply width (found.sides vals).1 (found.sides vals).2 =
      kind.apply width vals.1 vals.2 := by
  grind [Operands.sides, BinKind.apply_comm]

theorem CompilationUnit.bits_eq_places
    (width_eq : unit.width? type = some width) : width.bits = width.places := by
  cases type with
  | u8 | i8 | bool | u16 | i16 | pointer _ | reference _ =>
    cases width_eq
    rfl
  | void | named _ =>
    obtain ⟨enum, _, rfl⟩ := Option.map_eq_some_iff.mp width_eq
    split <;> rfl

theorem BinKind.apply_of_le {amount : Int}
    (shift : kind.isShift = true) (holds : width.Holds num) (le : (width.places : Int) ≤ amount) :
    kind.apply width num amount =
      if kind = .sar then kind.apply width num ((width.places : Int) - 1) else 0 := by
  have le : width.places ≤ amount.toNat := by omega
  cases kind with
  | shl => exact apply_shl_of_le le
  | shr => exact apply_shr_of_le holds le
  | sar => exact apply_sar_of_le holds le
  | add | sub | and | or | xor => cases shift

section Instruct

variable {around : Surroundings} {draft after : Draft} {left res : TypedReg} {right : Value}

theorem runs_instruct (wf : draft.WellFormed unit) (valued : type.hasValues = true)
    (width_eq : unit.width? type = some width)
    (ran : Lower.instruct kind width type left right around draft = .ok (res, after)) :
    res.type = type ∧ draft.Adds after unit ∧ after.typing = draft.typing ∧
      ∀ first second due, Runs unit ⟨draft, [], 0⟩ draft after
        (fun state => state.registers left.register = first ∧ width.Holds first ∧
          state.read right = second)
        (pure (kind.apply width first second)) (after.Supplies unit due res) := by
  -- One instruction is added in each way, so it is enough to say what it writes.
  suffices ∃ action, ∃ content : GraphState → Int,
      after = draft.addResult { width, signed := type.isSigned } action ∧
      res = { register := draft.vregs.size, type } ∧
      action.Writes width draft.vregs.size content ∧
      ∀ {state : GraphState}, width.Holds (state.registers left.register) →
        width.truncate (content state) =
          kind.apply width (state.registers left.register) (state.read right) by
    obtain ⟨action, content, rfl, rfl, acts, content_eq⟩ := this
    refine ⟨rfl, wf.adds.addResult _ _, wf.typing_addResult _ _, fun first second due =>
      Runs.provide wf valued width_eq content acts ?_⟩
    rintro state ⟨rfl, holds, rfl⟩
    exact content_eq holds
  have binary (right : Value) : Action.Writes (.bin kind draft.vregs.size left.register right false)
      width draft.vregs.size fun state =>
        kind.apply width (state.registers left.register) (state.read right) := by
    intro graph args state width_eq
    simp only [Graph.act, width_eq]
  unfold Lower.instruct at ran
  cases right with
  | reg reg =>
    cases ran
    exact ⟨_, _, rfl, rfl, binary _, fun _ => BinKind.holds_apply ..⟩
  | imm amount =>
    simp only at ran
    split at ran
    · next shifted =>
      rw [ge_iff_le, bits_eq_places width_eq] at shifted
      split at ran
      · next sar =>
        cases ran
        refine ⟨_, _, rfl, rfl, binary _, fun holds => ?_⟩
        rw [GraphState.read, GraphState.read, BinKind.apply_of_le shifted.1 holds shifted.2,
          if_pos sar, bits_eq_places width_eq]
        exact BinKind.holds_apply ..
      · next other =>
        cases ran
        refine ⟨_, fun _ => 0, rfl, rfl, ?_, fun holds => ?_⟩
        · intro graph args state width_eq
          simp only [Graph.act, width_eq]
        · rw [GraphState.read, BinKind.apply_of_le shifted.1 holds shifted.2, if_neg other]
          exact width.holds_zero
    · cases ran
      exact ⟨_, _, rfl, rfl, binary _, fun _ => BinKind.holds_apply ..⟩

theorem Lower.operate_ok
    (direct : (shiftKind kind found.left.type).isShift = true → ∃ amount, found.right = .imm amount)
    (ran : operate (.arithmetic kind) found around draft = .ok (res, after)) :
    found.left.type.hasValues = true ∧ (found.left.type.isInteger = true ∨ kind.isBitwise = true) ∧
      ∃ width, around.context.unit.width? found.left.type = some width ∧
        instruct (shiftKind kind found.left.type) width found.left.type found.left found.right
          around draft = .ok (res, after) := by
  unfold operate at ran
  simp only at ran
  obtain ⟨allowed, ran⟩ := guard_ok.mp ran
  obtain ⟨width, _, sized, ran⟩ := bind_ok.mp ran
  obtain ⟨width_eq, rfl⟩ := widthOf_ok sized
  have allowed : found.left.type.isInteger = true ∨
      found.left.type = .bool ∧ kind.isBitwise = true := by
    grind
  refine ⟨?_, allowed.imp id And.right, width, width_eq, ?_⟩
  · rcases allowed with integer | ⟨bool, _⟩
    · exact Ty.hasValues_of_isInteger integer
    · rw [bool]
      decide
  · cases shift : (shiftKind kind found.left.type).isShift with
    | false =>
      simp_all
    | true =>
      obtain ⟨amount, operand⟩ := direct shift
      simp_all

end Instruct

/-! ## Arithmetic -/

theorem Expr.eq_int_of_literal?
    (found : expr.literal? = some literal) : expr = .int literal.1 literal.2 := by
  cases expr with
  | int num type =>
    cases found
    rfl
  | _ => cases found

theorem meaning_of_literal (found : expr.literal? = some literal) {want : Ty} {typing : Typing} :
    expr.meaning unit sig want typing =
      ((literalType literal want, pure (unit.fit (literalType literal want) literal.1)), typing) := by
  rw [Expr.eq_int_of_literal? found]
  rfl

section Arithmetic

variable {around : Surroundings} {draft after : Draft} {want : Ty} {res : TypedReg}

theorem Lower.binaryValue_ok {left right : ExprCode}
    (ran : binaryValue (.arithmetic kind) left right want around draft = .ok (res, after)) :
    (∃ first second value, left.source.literal? = some first ∧ right.source.literal? = some second ∧
      (BinaryOp.arithmetic kind).fold? first.1 second.1 = some value ∧
      constant value (literalType first want) around draft = .ok (res, after)) ∨
    ∃ found mid, operands (.arithmetic kind) left right want around draft = .ok (found, mid) ∧
      (found = none ∧ res = .never ∧ mid = after ∨ ∃ operands, found = some operands ∧
          operate (.arithmetic kind) operands around mid = .ok (res, after)) := by
  unfold binaryValue at ran
  cases folded : foldLiterals? (.arithmetic kind) left.source right.source with
  | some pair =>
    obtain ⟨value, first⟩ := pair
    rw [folded] at ran
    obtain ⟨_, _, checked, ran⟩ := bind_ok.mp ran
    obtain ⟨rfl, _⟩ := checkLiteral_ok checked
    obtain ⟨first', left_eq, folded⟩ := Option.bind_eq_some_iff.mp folded
    obtain ⟨second, right_eq, folded⟩ := Option.bind_eq_some_iff.mp folded
    obtain ⟨value', folded, same⟩ := Option.bind_eq_some_iff.mp folded
    simp_all
  | none =>
    rw [folded] at ran
    obtain ⟨found, mid, computed, ran⟩ := bind_ok.mp ran
    refine .inr ⟨found, mid, computed, ?_⟩
    cases found with
    | none =>
      cases ran
      exact .inl ⟨rfl, rfl, rfl⟩
    | some operands => exact .inr ⟨operands, rfl, ran⟩

theorem runs_folded (wf : draft.WellFormed unit) (belong : around.Belong unit sig)
    {value : Int} (valued : type.hasValues = true)
    (ran : Lower.constant value type around draft = .ok (res, after))
    (value_eq : unit.fit type value = num) :
    res.type = type ∧ draft.Adds after unit ∧ after.typing = draft.typing ∧
      Runs unit ⟨draft, names, 0⟩ draft after (fun _ => True) (pure num)
        (after.Supplies unit around.pending res) := by
  obtain ⟨width, width_eq, rfl, rfl⟩ := constant_ok ran
  rw [belong.unit] at width_eq
  refine ⟨rfl, wf.adds.addResult _ _, wf.typing_addResult _ _, ?_⟩
  grind [runs_constant]

variable {left right : Expr}

theorem computes_arithmetic (soundLeft : left.Sound unit sig)
    (soundRight : right.Sound unit sig) (left_subset : storedIn left.nodes ⊆ names)
    (right_subset : storedIn right.nodes ⊆ names) (unshifted : kind.isShift = false) :
    Computes unit sig names (Lower.binaryValue (.arithmetic kind) left.code right.code)
      (.arithmetic unit kind left.literal? right.literal? (left.meaning unit sig)
        (right.meaning unit sig)) := by
  intro want around draft after res belong wf ran
  rcases binaryValue_ok ran with
    ⟨first, second, value, left_eq, right_eq, folded, ran⟩ | ⟨found, mid, computed, ways⟩
  · rw [left.code_source] at left_eq
    rw [right.code_source] at right_eq
    have valued := literalType_hasValues first.1 (soundLeft.hasValues_of_literal left_eq) want
    obtain ⟨type_eq, adds, typing_eq, runs⟩ := runs_folded wf belong valued ran
      (truncate_fold folded (by rintro rfl; cases unshifted))
    unfold Meaning.arithmetic
    rw [right_eq, Typed.bind_eq (operands_right second (meaning_of_literal left_eq)), type_eq,
      typing_eq]
    exact ⟨_, rfl, adds, runs⟩
  · obtain ⟨type, run, typed, adds, runs⟩ :=
      operands_computed soundLeft soundRight left_subset right_subset belong wf computed
    unfold Meaning.arithmetic
    rw [BinaryOp.exchanges] at typed
    rw [Typed.bind_eq typed]
    rcases ways with ⟨rfl, rfl, rfl⟩ | ⟨found, rfl, operated⟩
    · obtain ⟨rfl, runs⟩ := runs
      exact ⟨_, rfl, adds, runs.bind_never⟩
    · obtain ⟨rfl, completes, runs⟩ := runs
      have kind_eq : Lower.shiftKind kind found.left.type = kind :=
        if_neg fun ⟨shr, _⟩ => by rw [shr] at unshifted; cases unshifted
      obtain ⟨valued, _, width, width_eq, ran⟩ := operate_ok
        (by rw [kind_eq, unshifted]; exact nofun) operated
      rw [belong.unit] at width_eq
      rw [kind_eq] at ran
      obtain ⟨type_eq, adds', typing_eq, runs'⟩ := runs_instruct adds.wellFormed valued width_eq ran
      rw [type_eq, typing_eq]
      refine ⟨_, rfl, adds.trans adds', runs.andThen (fun vals => ?_) adds adds'.toLeads
        (List.nil_subset _)⟩
      refine .assume (fun provides => provides.swapped) fun swapped => ?_
      rw [widthOf_eq width_eq]
      change Runs _ _ _ _ _ (pure (kind.apply width vals.1 vals.2)) _
      rw [← BinKind.apply_sides swapped]
      refine (runs' _ _ _).imp (fun provides => ⟨provides.left.content, ?_, ?_⟩) id
      · exact Width.truncate_of_holds width_eq provides.left.holds
      · obtain ⟨_, right, _⟩ := provides.right
        exact right.read_eq

theorem CompilationUnit.fit_of_range (width_eq : unit.width? type = some width) (nonneg : 0 ≤ num)
    (le : num ≤ (integerRange type width).2) : unit.fit type num = num := by
  rw [fit_eq width_eq]
  refine Width.holds_iff.mpr ⟨nonneg, ?_⟩
  have modulus_eq := width.modulus_eq_two_signBit
  have mask_eq := width.mask_eq
  grind [integerRange]

theorem computes_shift (soundLeft : left.Sound unit sig) (left_subset : storedIn left.nodes ⊆ names)
    (shift : kind.isShift = true) (amount : right.isAmount = true) :
    Computes unit sig names (Lower.binaryValue (.arithmetic kind) left.code right.code)
      (.shift unit kind right.literal? (left.meaning unit sig)) := by
  intro want around draft after res belong wf ran
  obtain ⟨literal, right_eq, nonneg⟩ : ∃ literal, right.literal? = some literal ∧ 0 ≤ literal.1 := by
    cases right with
    | int num own => exact ⟨_, rfl, of_decide_eq_true amount⟩
    | _ => cases amount
  have source_eq : right.code.source.literal? = some literal := by rw [right.code_source, right_eq]
  rw [right_eq]
  rcases binaryValue_ok ran with
    ⟨first, second, value, left_eq, found, folded, ran⟩ | ⟨found, mid, computed, ways⟩
  · rw [left.code_source] at left_eq
    cases source_eq.symm.trans found
    have kind_eq : kind = .shl := by
      cases kind with
      | shl => rfl
      | shr | sar => cases folded
      | add | sub | and | or | xor => cases shift
    subst kind_eq
    cases folded
    have valued := literalType_hasValues first.1 (soundLeft.hasValues_of_literal left_eq) want
    obtain ⟨type_eq, adds, typing_eq, runs⟩ := runs_folded wf belong valued ran
      (truncate_shiftLeft nonneg)
    simp only [Meaning.shift]
    rw [Typed.bind_eq (meaning_of_literal left_eq), type_eq, typing_eq]
    exact ⟨_, rfl, adds, runs⟩
  · obtain ⟨value, computed, operands⟩ := operands_right_ok source_eq computed
    obtain ⟨run, typed, adds, runs⟩ := soundLeft.computes.mono left_subset belong wf computed
    simp only [Meaning.shift]
    rw [Typed.bind_eq typed]
    rcases operands with ⟨never, rfl⟩ | ⟨completes, rfl, inside⟩
    · rcases ways with ⟨_, rfl, rfl⟩ | ⟨_, none_eq, _⟩
      · rw [never]
        exact ⟨_, rfl, adds, (runs.never never).bind_never⟩
      · cases none_eq
    · rcases ways with ⟨none_eq, _⟩ | ⟨found, same, operated⟩
      · cases none_eq
      cases same
      obtain ⟨valued, allowed, width, width_eq, ran⟩ :=
        operate_ok (fun _ => ⟨_, rfl⟩) operated
      have integer : value.type.isInteger = true := allowed.resolve_right (by
        rw [BinKind.isBitwise_of_isShift shift]
        decide)
      have fits : unit.fit value.type literal.1 = literal.1 := by
        have range := inside width integer width_eq
        rw [belong.unit] at width_eq
        grind [fit_of_range]
      rw [belong.unit] at width_eq ran
      obtain ⟨type_eq, adds', typing_eq, runs'⟩ := runs_instruct adds.wellFormed valued width_eq ran
      rw [type_eq, typing_eq]
      refine ⟨_, rfl, adds.trans adds', runs.andThen (fun num => ?_) adds adds'.toLeads
        (List.nil_subset _)⟩
      rw [widthOf_eq width_eq]
      refine (runs' _ _ _).imp (fun provides => ⟨provides.content, ?_, fits⟩) id
      exact Width.truncate_of_holds width_eq provides.holds

end Arithmetic

end Backend65816
