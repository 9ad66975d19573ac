import Backend65816.Proofs.LoweringValues

/-!
# Code of operands

The operands of an operation are computed from left to right; what the left operand holds stays in
place while the right one runs. A literal operand becomes a number of the instruction. Comparisons
of signed values are made on values whose order was mapped onto the unsigned order.
-/

namespace Backend65816

open Lower List TypedReg Typed CompilationUnit Runs

variable {cond : Cond} {after : Draft} {state : GraphState} {type : Ty} {run : Eval Int}
  {right : Value}

variable {unit : CompilationUnit} {sig : Signature} {names : List String} {literal : Int × Ty}
  {around : Surroundings} {draft : Draft}

/-! ## Operands -/

theorem Meaning.operands_right {exchanges : Bool} {left right : Meaning} {want : Ty}
    {typing after : Typing} {leftLiteral : Option (Int × Ty)}
    (literal : Int × Ty) (typed : left want typing = ((type, run), after)) :
    operands unit exchanges leftLiteral (some literal) left right want typing =
      ((type, do return (← run, unit.fit type literal.1)), after) := by
  simp only [operands]
  rw [bind_eq typed]
  rfl

def Draft.ProvidesOperand (draft : Draft) (unit : CompilationUnit) (type : Ty) (number : Int)
    (state : GraphState) : Value → Prop
  | .imm value => value = number ∧ unit.Holds type number
  | .reg register => draft.Provides unit [] { register, type } number state

/-- The values of operands, with the left operand of the instruction first. -/
def Operands.sides (found : Operands) (values : Int × Int) : Int × Int :=
  if found.swapped then (values.2, values.1) else values

/-- The operands of an operation are in place. -/
structure Draft.ProvidesBoth (draft : Draft) (unit : CompilationUnit) (exchanges : Bool)
    (found : Operands) (values : Int × Int) (state : GraphState) : Prop where
  left : draft.Provides unit [] found.left (found.sides values).1 state
  right : ∃ type, draft.ProvidesOperand unit type (found.sides values).2 state found.right ∧
    (exchanges = true → type = found.left.type)
  swapped : found.swapped = true → exchanges = true

section Provided

variable {num : Int} {later : GraphState} {operand : Value} {exchanges : Bool} {found : Operands}
  {vals : Int × Int}

section

variable (provides : draft.ProvidesOperand unit type num state operand)
include provides

theorem Draft.ProvidesOperand.read_eq : state.read operand = num := by
  cases operand with
  | imm value => exact provides.1
  | reg reg => exact provides.content

theorem Draft.ProvidesOperand.holds : unit.Holds type num := by
  cases operand with
  | imm value => exact provides.2
  | reg reg => exact Draft.Provides.holds provides

theorem Draft.ProvidesOperand.of_keeps (wf : draft.WellFormed unit)
    (keeps : draft.Keeps [] state later) : draft.ProvidesOperand unit type num later operand := by
  cases operand with
  | imm value => exact provides
  | reg reg => exact Draft.Provides.of_keeps provides wf (nil_subset _) keeps

end

theorem Draft.ProvidesBoth.of_keeps (provides : draft.ProvidesBoth unit exchanges found vals state)
    (wf : draft.WellFormed unit) (keeps : draft.Keeps [] state later) :
    draft.ProvidesBoth unit exchanges found vals later where
  left := provides.left.of_keeps wf (nil_subset _) keeps
  right := by
    obtain ⟨type, right, same⟩ := provides.right
    exact ⟨type, right.of_keeps wf keeps, same⟩
  swapped := provides.swapped

theorem Draft.ProvidesBoth.right_provides (provides : draft.ProvidesBoth unit true found vals state) :
    draft.ProvidesOperand unit found.left.type (found.sides vals).2 state found.right := by
  obtain ⟨type, right, same⟩ := provides.right
  exact same rfl ▸ right

end Provided

theorem CompilationUnit.holds_fit (type : Ty) (num : Int) :
    unit.Holds type (unit.fit type num) := Width.holds_truncate _ _

namespace Lower

variable {left right : ExprCode} {operator : BinaryOp} {want : Ty} {found : Option Operands}

theorem immediate_ok {num : Int} {operand : Value}
    (ran : immediate num type around draft = .ok (operand, after)) :
    draft = after ∧ operand = .imm (around.context.unit.fit type num) ∧
      ∀ width, type.isInteger = true → around.context.unit.width? type = some width →
        (integerRange type width).1 ≤ num ∧ num ≤ (integerRange type width).2 := by
  obtain ⟨_, _, checked, ran⟩ := bind_ok.mp ran
  obtain ⟨rfl, inside⟩ := checkLiteral_ok checked
  cases ran
  exact ⟨rfl, rfl, inside⟩

theorem operands_right_ok (literal_eq : right.source.literal? = some literal)
    (ran : operands operator left right want around draft = .ok (found, after)) :
    ∃ value, left.value want around draft = .ok (value, after) ∧
      (value.type = .never ∧ found = none ∨ value.type ≠ .never ∧
        found = some { left := value, right := .imm (around.context.unit.fit value.type literal.1) } ∧
        ∀ width, value.type.isInteger = true → around.context.unit.width? value.type = some width →
          (integerRange value.type width).1 ≤ literal.1 ∧
            literal.1 ≤ (integerRange value.type width).2) := by
  unfold operands at ran
  rw [literal_eq] at ran
  obtain ⟨value, mid, computed, ran⟩ := bind_ok.mp ran
  by_cases diverges : value.type = .never
  · rw [if_pos (diverges_iff.mpr diverges)] at ran
    cases ran
    simp_all
  · rw [if_neg (mt diverges_iff.mp diverges)] at ran
    obtain ⟨operand, _, made, ran⟩ := bind_ok.mp ran
    obtain ⟨rfl, rfl, inside⟩ := immediate_ok made
    cases ran
    simp_all

end Lower

/-- Code computes operands as a meaning says, unless one of them does not complete. -/
def OperandsComputed (unit : CompilationUnit) (names : List String) (exchanges : Bool)
    (draft after : Draft) (found : Option Operands)
    (meaning : (Ty × Eval (Int × Int)) × Typing) : Prop :=
  ∃ type run, meaning = ((type, run), after.typing) ∧ draft.Adds after unit ∧
    match found with
    | none =>
      type = .never ∧
        Runs unit ⟨draft, names, 0⟩ draft after (fun _ => True) run fun _ _ => False
    | some operands =>
      type = operands.left.type ∧ type ≠ .never ∧
        Runs unit ⟨draft, names, 0⟩ draft after (fun _ => True) run fun values =>
          after.Arrives (after.ProvidesBoth unit exchanges operands values)

section Operands

variable {left right : ExprCode} {leftMeaning rightMeaning : Meaning} {operator : BinaryOp}
  {want : Ty} {found : Option Operands}

theorem Runs.never {extent : Extent} {start : Draft} {pre : GraphState → Prop}
    {value : TypedReg} {due : List String}
    (runs : Runs unit extent start after pre run (after.Supplies unit due value))
    (never : value.type = .never) : Runs unit extent start after pre run fun _ _ => False :=
  runs.post fun supplies => supplies.2.2.completes never

variable (belong : around.Belong unit sig) (wf : draft.WellFormed unit)
  (ran : Lower.operands operator left right want around draft = .ok (found, after))

include belong wf ran

theorem operands_of_right_literal (computes : Computes unit sig names left.value leftMeaning)
    (literal_eq : right.source.literal? = some literal) :
    OperandsComputed unit names operator.exchanges draft after found
      (Meaning.operands unit operator.exchanges left.source.literal? right.source.literal?
        leftMeaning rightMeaning want draft.typing) := by
  obtain ⟨value, computed, ways⟩ := operands_right_ok literal_eq ran
  obtain ⟨run, typed, adds, runs⟩ := computes belong wf computed
  rw [literal_eq]
  refine ⟨value.type, _, Meaning.operands_right literal typed, adds, ?_⟩
  rcases ways with ⟨never, rfl⟩ | ⟨completes, rfl, _⟩
  · exact ⟨never, (runs.never never).bind_never⟩
  · refine ⟨rfl, completes, map (runs.post ?_)⟩
    rintro num point ⟨alive, here_eq, provides⟩
    refine ⟨alive, here_eq, provides.of_pending (nil_subset _), ?_, nofun⟩
    rw [belong.unit]
    exact ⟨value.type, ⟨rfl, holds_fit _ _⟩, fun _ => rfl⟩

theorem operands_of_left_literal (computes : Computes unit sig names right.value rightMeaning)
    (literal_eq : left.source.literal? = some literal) (valued : literal.2.hasValues = true)
    (no_literal : right.source.literal? = none) :
    OperandsComputed unit names operator.exchanges draft after found
      (Meaning.operands unit operator.exchanges left.source.literal? right.source.literal?
        leftMeaning rightMeaning want draft.typing) := by
  unfold operands at ran
  rw [literal_eq, no_literal] at ran
  obtain ⟨value, mid, computed, ran⟩ := bind_ok.mp ran
  obtain ⟨run, typed, adds, runs⟩ := computes belong wf computed
  rw [literal_eq, no_literal, Meaning.operands, bind_eq typed]
  dsimp only
  by_cases diverges : value.type = .never
  · rw [if_pos (diverges_iff.mpr diverges)] at ran
    cases ran
    refine ⟨_, _, rfl, adds, ?_, (runs.never diverges).bind_never⟩
    simp_all
  rw [if_neg (mt diverges_iff.mp diverges)] at ran
  rw [decide_eq_false diverges, Bool.or_false]
  by_cases exchanges : operator.exchanges = true
  · rw [if_pos exchanges] at ran
    obtain ⟨operand, _, made, ran⟩ := bind_ok.mp ran
    obtain ⟨rfl, rfl, _⟩ := immediate_ok made
    cases ran
    rw [if_pos exchanges]
    refine ⟨_, _, rfl, adds, rfl, diverges, map (runs.post ?_)⟩
    rintro num point ⟨alive, here_eq, provides⟩
    refine ⟨alive, here_eq, provides.of_pending (nil_subset _), ?_, fun _ => exchanges⟩
    rw [belong.unit]
    exact ⟨value.type, ⟨rfl, holds_fit _ _⟩, fun _ => rfl⟩
  · rw [if_neg exchanges] at ran
    obtain ⟨_, _, checked, ran⟩ := bind_ok.mp ran
    obtain ⟨rfl, _⟩ := checkLiteral_ok checked
    obtain ⟨constant, _, made, ran⟩ := bind_ok.mp ran
    obtain ⟨width, width_eq, rfl, rfl⟩ := constant_ok made
    rw [belong.unit] at width_eq
    have valued' := literalType_hasValues literal.1 valued value.type
    have completes := (Ty.hasValues_iff.mp valued').2
    rw [if_neg (mt diverges_iff.mp completes)] at ran
    cases ran
    have wf' := adds.wellFormed
    rw [if_neg exchanges, ← wf'.typing_addResult { width, signed := _ } _]
    refine ⟨_, _, rfl, adds.addResult _ _, rfl, completes, ?_⟩
    refine runs.andThen (fun num => ?_) adds (wf'.addResult _ _).toLeads (nil_subset _)
    have constant := (runs_constant wf' valued' width_eq literal.1 (fun _ => True) []).frame
      fun {before later} keeps (provides : mid.Provides unit around.pending value num before) =>
        provides.of_keeps wf' (nil_subset _) keeps
    refine @Runs.map _ _ _ _ _ _ _ _ (fun content => (content, num)) _
      (constant.imp (fun holds => ⟨trivial, holds⟩) ?_)
    rintro content point ⟨⟨alive, here_eq, provides⟩, provides'⟩
    refine ⟨alive, here_eq, provides, ⟨value.type, ?_, fun holds => absurd holds exchanges⟩, nofun⟩
    exact (provides'.of_pending (nil_subset _)).of_leads wf' (wf'.addResult _ _).toLeads

theorem operands_of_both {rightNames : List String}
    (computesLeft : Computes unit sig names left.value leftMeaning)
    (computesRight : Computes unit sig rightNames right.value rightMeaning)
    (stored : storedNames [right] = rightNames) (right_subset : rightNames ⊆ names)
    (no_left : left.source.literal? = none) (no_right : right.source.literal? = none) :
    OperandsComputed unit names operator.exchanges draft after found
      (Meaning.operands unit operator.exchanges left.source.literal? right.source.literal?
        leftMeaning rightMeaning want draft.typing) := by
  unfold operands at ran
  rw [no_left, no_right] at ran
  obtain ⟨first, mid, computed, ran⟩ := bind_ok.mp ran
  rw [stored] at computed
  obtain ⟨run, typed, adds, runs⟩ := computesLeft (belong.whilePending rightNames) wf computed
  have wf' := adds.wellFormed
  rw [no_left, no_right, Meaning.operands, bind_eq typed]
  by_cases diverges : first.type = .never
  · rw [if_pos (diverges_iff.mpr diverges)] at ran
    cases ran
    simp only [if_pos diverges]
    exact ⟨_, _, rfl, adds, rfl, (runs.never diverges).bind_never⟩
  rw [if_neg (mt diverges_iff.mp diverges)] at ran
  obtain ⟨second, _, computed', ran⟩ := bind_ok.mp ran
  obtain ⟨run', typed', adds', runs'⟩ := computesRight belong wf' computed'
  simp only [if_neg diverges]
  rw [bind_eq typed']
  by_cases diverges' : second.type = .never
  · rw [if_pos (diverges_iff.mpr diverges')] at ran
    cases ran
    refine ⟨_, _, rfl, adds.trans adds', if_pos diverges', ?_⟩
    refine runs.andThen (fun num => ?_) adds adds'.toLeads right_subset
    exact ((runs'.never diverges').imp (fun _ => trivial) id).bind_never
  rw [if_neg (mt diverges_iff.mp diverges')] at ran
  by_cases same : first.type = second.type
  · rw [if_neg (not_not_intro same)] at ran
    cases ran
    rw [if_neg diverges']
    refine ⟨_, _, rfl, adds.trans adds', rfl, diverges,
      runs.andThen (fun num => ?_) adds adds'.toLeads right_subset⟩
    have framed := runs'.frame
      fun {before later} keeps (provides : mid.Provides unit _ first num before) =>
        provides.of_keeps wf' (subset_append_left rightNames around.pending) keeps
    refine map (framed.imp (fun holds => ⟨trivial, holds⟩) ?_)
    rintro number' point ⟨⟨alive, here_eq, provides'⟩, provides⟩
    refine ⟨alive, here_eq, ?_, ⟨second.type, ?_, fun _ => same.symm⟩, nofun⟩
    · exact (provides.of_leads wf' adds'.toLeads).of_pending (nil_subset _)
    · exact provides'.of_pending (nil_subset _)
  · simp_all [fail_ne]

end Operands

theorem operands_computed {left right : Expr} (soundLeft : left.Sound unit sig)
    (soundRight : right.Sound unit sig) (left_subset : storedIn left.nodes ⊆ names)
    (right_subset : storedIn right.nodes ⊆ names) (belong : around.Belong unit sig)
    (wf : draft.WellFormed unit) {operator : BinaryOp} {want : Ty} {found : Option Operands}
    (ran : operands operator left.code right.code want around draft = .ok (found, after)) :
    OperandsComputed unit names operator.exchanges draft after found
      (Meaning.operands unit operator.exchanges left.literal? right.literal?
        (left.meaning unit sig) (right.meaning unit sig) want draft.typing) := by
  have computesLeft := soundLeft.computes.mono left_subset
  have computesRight := soundRight.computes.mono right_subset
  have left_source := congrArg Expr.literal? left.code_source
  rw [← left_source, ← congrArg Expr.literal? right.code_source]
  cases right_eq : right.code.source.literal? with
  | some literal =>
    grind [operands_of_right_literal]
  | none =>
    rw [← right_eq]
    cases left_eq : left.code.source.literal? with
    | some literal =>
      have valued := soundLeft.hasValues_of_literal (left_source.symm.trans left_eq)
      grind [operands_of_left_literal]
    | none =>
      rw [← left_eq]
      exact operands_of_both belong wf ran computesLeft soundRight.computes
        storedNames_code right_subset left_eq right_eq

/-! ## Comparisons -/

/-- Code that maps the signed order of a register onto the unsigned order. -/
def Draft.bias (draft : Draft) (register : VReg) : Draft :=
  draft.addResult { width := (draft.info register).width }
    (.bin .xor draft.vregs.size register (.imm (draft.info register).width.signBit) false)

/-- What a register holds once its order has been mapped. -/
def CompilationUnit.biased (unit : CompilationUnit) (type : Ty) (number : Int) : Int :=
  (unit.widthOf type).truncate (number + (unit.widthOf type).signBit)

namespace Draft.WellFormed

variable (wf : draft.WellFormed unit) (reg : VReg)

include wf

theorem bias : draft.Adds (draft.bias reg) unit := wf.adds.addResult _ _

theorem typing_bias : (draft.bias reg).typing = draft.typing := wf.typing_addResult _ _

theorem not_mutable_bias (names : List String) :
    ¬(draft.bias reg).Mutable names draft.vregs.size := wf.not_mutable_result _ _

end Draft.WellFormed

theorem Draft.bias_vregs (draft : Draft) (reg : VReg) :
    (draft.bias reg).vregs.size = draft.vregs.size + 1 := by
  rw [bias, addResult_vregs, Array.size_push]

theorem runs_bias (wf : draft.WellFormed unit) (value : TypedReg) (num : Int)
    (valued : value.type ≠ .void) (due : List String) :
    Runs unit ⟨draft, names, 0⟩ draft (draft.bias value.register)
      (draft.Provides unit due value num) (pure (unit.biased value.type num))
      fun _ => (draft.bias value.register).Arrives fun state =>
        state.registers draft.vregs.size = unit.biased value.type num := by
  refine (compute wf { width := (draft.info value.register).width }
    (fun state => BinKind.xor.apply (draft.info value.register).width
      (state.registers value.register) (draft.info value.register).width.signBit)
    (fun width_eq => ?_) (fun {state} provides => ?_)).post ?_
  · simp only [Graph.act, width_eq]
    rfl
  · have width_eq := widthOf_eq (provides.width_eq valued)
    have holds : (unit.widthOf value.type).Holds num := provides.holds
    rw [width_eq] at holds
    rw [CompilationUnit.biased, width_eq, provides.content, apply_xor_signBit holds,
      Width.truncate_truncate]
  · rintro res point ⟨alive, here_eq, rfl, content, _⟩
    exact ⟨alive, here_eq, content⟩

theorem Lower.comparable_ok {left : VReg}
    {pair : VReg × Value} (ran : comparable cond left right around draft = .ok (pair, after)) :
    ((draft.info left).signed = false ∨ cond.isEquality = true) ∧ pair = (left, right) ∧
      draft = after ∨
    (draft.info left).signed = true ∧ pair.1 = draft.vregs.size ∧
      ((∃ num, right = .imm num ∧ after = draft.bias left ∧
        pair.2 = .imm ((draft.info left).width.truncate (num + (draft.info left).width.signBit))) ∨
      ∃ reg, right = .reg reg ∧ after = (draft.bias left).bias reg ∧
        pair.2 = .reg (draft.bias left).vregs.size) := by
  unfold comparable at ran
  rw [regInfo_bind] at ran
  split at ran
  · next ordered =>
    rw [Bool.and_eq_true] at ordered
    refine .inr ⟨ordered.1, ?_⟩
    cases right with
    | imm num =>
      cases ran
      exact ⟨rfl, .inl ⟨num, rfl, rfl, rfl⟩⟩
    | reg reg =>
      cases ran
      exact ⟨rfl, .inr ⟨reg, rfl, rfl, rfl⟩⟩
  · next unordered =>
    cases ran
    grind

section Comparable

variable {found : Operands} {vals : Int × Int} {pair : VReg × Value}

theorem compare_biased (cond : Cond) (provides : draft.ProvidesBoth unit true found vals state)
    (signed : found.left.type.isSigned = true) :
    cond.eval (unit.biased found.left.type (found.sides vals).1)
        (unit.biased found.left.type (found.sides vals).2) =
      unit.compare found.left.type cond (found.sides vals).1 (found.sides vals).2 := by
  rw [CompilationUnit.compare, if_pos signed]
  exact eval_biased cond provides.left.holds provides.right_provides.holds

theorem Ty.ne_void_of_isSigned (signed : type.isSigned = true) : type ≠ .void := by
  rintro rfl
  cases signed

section

variable (wf : draft.WellFormed unit)
include wf

theorem runs_bias_left (signed : (draft.info found.left.register).signed = true) :
    Runs unit ⟨draft, [], 0⟩ draft (draft.bias found.left.register)
      (draft.ProvidesBoth unit true found vals)
      (pure (unit.biased found.left.type (found.sides vals).1))
      fun _ => (draft.bias found.left.register).Arrives fun state =>
        state.registers draft.vregs.size = unit.biased found.left.type (found.sides vals).1 ∧
          draft.ProvidesBoth unit true found vals state ∧ found.left.type.isSigned = true := by
  have assume : ∀ {state}, draft.ProvidesBoth unit true found vals state →
      found.left.type.isSigned = true :=
    fun provides => (provides.left.signed_eq wf).symm.trans signed
  refine .assume assume fun signed => ?_
  refine ((runs_bias wf _ _ (Ty.ne_void_of_isSigned signed) _).frame
    fun keeps (provides : draft.ProvidesBoth unit true found vals _) =>
      provides.of_keeps wf keeps).imp (fun provides => ⟨provides.left, provides⟩) ?_
  rintro value point ⟨⟨alive, here_eq, content⟩, provides⟩
  exact ⟨alive, here_eq, content, provides, signed⟩

theorem runs_bias_right {reg : VReg} {biased : Int} (operand : found.right = .reg reg) :
    Runs unit ⟨draft, [], 0⟩ (draft.bias found.left.register)
      ((draft.bias found.left.register).bias reg)
      (fun state => state.registers draft.vregs.size = biased ∧
        draft.ProvidesBoth unit true found vals state ∧ found.left.type.isSigned = true)
      (pure (unit.biased found.left.type (found.sides vals).2))
      fun _ => ((draft.bias found.left.register).bias reg).Arrives fun state =>
        state.registers draft.vregs.size = biased ∧
        state.registers (draft.bias found.left.register).vregs.size =
          unit.biased found.left.type (found.sides vals).2 := by
  have added := wf.bias found.left.register
  refine assume (fun holds => holds.2.2) fun signed => ?_
  have below : draft.vregs.size < (draft.bias found.left.register).vregs.size := by
    rw [Draft.bias_vregs]
    exact Nat.lt_succ_self _
  have runs := (runs_bias added.wellFormed ⟨reg, found.left.type⟩ (found.sides vals).2
    (Ty.ne_void_of_isSigned signed) []).frame
    fun {before _} keeps (content : before.registers draft.vregs.size = biased) =>
      (keeps _ below (wf.not_mutable_bias _ [])).trans content
  refine (runs.behind added).imp
    (fun holds => ⟨?_, holds.1⟩) fun ⟨⟨alive, here_eq, content⟩, kept⟩ =>
      ⟨alive, here_eq, kept, content⟩
  have provides := holds.2.1.right_provides
  rw [operand] at provides
  exact .of_leads provides wf added.toLeads

theorem adds_comparable {left : VReg}
    (ran : comparable cond left right around draft = .ok (pair, after)) :
    draft.Adds after unit ∧ after.typing = draft.typing := by
  have added := wf.bias left
  rcases comparable_ok ran with ⟨_, _, rfl⟩ | ⟨_, _, ⟨_, _, rfl, _⟩ | ⟨_, _, rfl, _⟩⟩
  · exact ⟨wf.adds, rfl⟩
  · exact ⟨added, wf.typing_bias _⟩
  · exact ⟨added.trans (added.wellFormed.bias _),
      (added.wellFormed.typing_bias _).trans (wf.typing_bias _)⟩

theorem runs_comparable (vals : Int × Int)
    (ran : comparable cond found.left.register found.right around draft = .ok (pair, after)) :
    Runs unit ⟨draft, [], 0⟩ draft after (draft.ProvidesBoth unit true found vals) (pure ())
      fun _ => after.Arrives fun state =>
        cond.eval (state.registers pair.1) (state.read pair.2) =
          unit.compare found.left.type cond (found.sides vals).1 (found.sides vals).2 := by
  obtain ⟨first, second⟩ := pair
  rcases comparable_ok ran with ⟨plain, same, rfl⟩ | ⟨signed, rfl, ways⟩
  · cases same
    refine stay fun _ provides => ⟨(), rfl, ?_⟩
    rw [provides.left.content, provides.right_provides.read_eq, CompilationUnit.compare]
    split
    · next signed =>
      have equality := plain.resolve_left (by rw [provides.left.signed_eq wf, signed]; decide)
      exact (eval_signed_of_isEquality equality provides.left.holds
        provides.right_provides.holds).symm
    · rfl
  rcases ways with ⟨num, operand, rfl, rfl⟩ | ⟨reg, operand, rfl, rfl⟩
  · refine (runs_bias_left wf signed).prepare (stay ?_) (.refl _)
    rintro fuel env state _ ⟨content, provides, signed⟩
    refine ⟨(), rfl, ?_⟩
    have right := provides.right_provides
    have width_eq : unit.widthOf found.left.type = (draft.info found.left.register).width := by
      rw [CompilationUnit.widthOf, provides.left.width_eq (Ty.ne_void_of_isSigned signed),
        Option.getD_some]
    rw [operand] at right
    rw [← compare_biased cond provides signed, content, ← right.1, CompilationUnit.biased,
      CompilationUnit.biased, width_eq]
    rfl
  · have added := ((wf.bias found.left.register).wellFormed.bias reg).toLeads
    refine assume (fun provides => compare_biased cond provides
      ((provides.left.signed_eq wf).symm.trans signed)) fun same => ?_
    refine (runs_bias_left wf signed).prepare ((runs_bias_right wf operand).prepare ?_ (.refl _))
      added
    refine stay ?_
    rintro fuel env state _ ⟨content, content'⟩
    refine ⟨(), rfl, ?_⟩
    grind [GraphState.read]

end

theorem compare_orient (type : Ty) (cond : Cond) (found : Operands) (vals : Int × Int) :
    unit.compare type (orient cond found.swapped) (found.sides vals).1 (found.sides vals).2 =
      unit.compare type cond vals.1 vals.2 := by
  grind [CompilationUnit.compare, orient, Operands.sides, Cond.eval_swap]

end Comparable

namespace Meaning

variable {leftLiteral rightLiteral : Option (Int × Ty)} {left right : Meaning} {want : Ty}
  {typing after : Typing} {run : Eval (Int × Int)}

theorem comparison_eq (typed : operands unit true leftLiteral rightLiteral left right .unspecified
    typing = ((type, run), after)) :
    comparison unit cond leftLiteral rightLiteral left right want typing =
      ((if type = .never then .never else .bool, do
        let vals ← run
        return (unit.compare type cond vals.1 vals.2).toInt), after) := by
  unfold comparison
  rw [bind_eq typed]
  rfl

end Meaning

theorem Lower.compareValue_ok {left right : ExprCode} {res : TypedReg}
    (ran : compareValue cond left right around draft = .ok (res, after)) :
    ∃ found mid, operands (.compare cond) left right .unspecified around draft = .ok (found, mid) ∧
      ((found = none ∧ res = .never ∧ mid = after) ∨ ∃ operands pair last, found = some operands ∧
          comparable (orient cond operands.swapped) operands.left.register operands.right
            around mid = .ok (pair, last) ∧
          res = { register := last.vregs.size, type := .bool } ∧
          after = last.addResult { width := .byte }
            (.setCond (orient cond operands.swapped) last.vregs.size pair.1 pair.2)) := by
  obtain ⟨found, mid, computed, ran⟩ := bind_ok.mp ran
  refine ⟨found, mid, computed, ?_⟩
  cases found with
  | none =>
    cases ran
    exact .inl ⟨rfl, rfl, rfl⟩
  | some operands =>
    obtain ⟨pair, last, compared, ran⟩ := bind_ok.mp ran
    cases ran
    exact .inr ⟨operands, pair, last, rfl, compared, rfl, rfl⟩

section Comparison

variable {left right : Expr} (soundLeft : left.Sound unit sig) (soundRight : right.Sound unit sig)
  (left_subset : storedIn left.nodes ⊆ names) (right_subset : storedIn right.nodes ⊆ names)
include soundLeft soundRight left_subset right_subset

theorem computes_comparison :
    Computes unit sig names (fun _ => compareValue cond left.code right.code)
      (.comparison unit cond left.literal? right.literal? (left.meaning unit sig)
        (right.meaning unit sig)) := by
  intro want around draft after res belong wf ran
  obtain ⟨found, mid, computed, ways⟩ := compareValue_ok ran
  obtain ⟨type, run, typed, adds, runs⟩ :=
    operands_computed soundLeft soundRight left_subset right_subset belong wf computed
  rw [Meaning.comparison_eq typed]
  rcases ways with ⟨rfl, rfl, rfl⟩ | ⟨operands, pair, last, rfl, compared, rfl, rfl⟩
  · obtain ⟨rfl, runs⟩ := runs
    exact ⟨_, rfl, adds, runs.bind_never⟩
  · obtain ⟨rfl, completes, runs⟩ := runs
    have wf' := adds.wellFormed
    obtain ⟨adds', typing_eq⟩ := adds_comparable wf' compared
    rw [if_neg completes, adds'.wellFormed.typing_addResult, typing_eq]
    have added := adds'.wellFormed.addResult { width := .byte }
      (.setCond (orient cond operands.swapped) last.vregs.size pair.1 pair.2)
    refine ⟨_, rfl, (adds.trans adds').addResult _ _, runs.andThen (fun vals => ?_) adds
      (adds'.toLeads.trans added.toLeads) (nil_subset _)⟩
    have width_eq : unit.width? .bool = some .byte := rfl
    refine (runs_comparable wf' vals compared).prepare (part (provide adds'.wellFormed
      (by decide) width_eq (fun state => ((orient cond operands.swapped).eval
        (state.registers pair.1) (state.read pair.2)).toInt) (fun width_eq => ?_)
      fun content => ?_) adds'.toLeads adds'.scopes (.refl _)) added.toLeads
    · simp only [Graph.act, width_eq]
    · rw [content, compare_orient]
      exact Width.holds_toInt _ _

theorem branches_comparison :
    Branches unit sig names (branchOnComparison cond left.code right.code)
      (.comparison unit cond left.literal? right.literal? (left.meaning unit sig)
        (right.meaning unit sig)) := by
  intro yes no around draft after belong wf ran
  obtain ⟨found, mid, computed, ran⟩ := bind_ok.mp ran
  obtain ⟨type, run, typed, adds, runs⟩ :=
    operands_computed soundLeft soundRight left_subset right_subset belong wf computed
  rw [Meaning.test_eq (Meaning.comparison_eq typed)]
  cases found with
  | none =>
    cases ran
    exact ⟨_, rfl, adds, runs.2.bind_never⟩
  | some operands =>
    obtain ⟨rfl, _, runs⟩ := runs
    have wf' := adds.wellFormed
    obtain ⟨pair, last, compared, ran⟩ := bind_ok.mp ran
    cases ran
    obtain ⟨adds', typing_eq⟩ := adds_comparable wf' compared
    have ended := adds'.wellFormed.terminate
      (.branch (orient cond operands.swapped) pair.1 pair.2 yes no)
    have revived_eq : mid.typing.revived = (last.terminate
        (.branch (orient cond operands.swapped) pair.1 pair.2 yes no)).typing.revived := by
      rw [adds'.wellFormed.typing_terminate, typing_eq]
      rfl
    refine ⟨_, congrArg _ revived_eq, (adds.trans adds').terminate _,
      runs.andThen (fun vals => ?_) adds (adds'.toLeads.trans ended.toLeads) (nil_subset _)⟩
    refine (runs_comparable wf' vals compared).prepare
      (branch adds'.wellFormed yes no fun content => ?_) ended.toLeads
    grind [compare_orient]

end Comparison

end Backend65816
