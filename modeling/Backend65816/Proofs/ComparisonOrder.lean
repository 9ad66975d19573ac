import Backend65816.Proofs.AddedStatements

/-!
# Order of comparisons

Graphs compare unsigned numbers, so the signed order is mapped onto the unsigned one where the left
register has a sign. Registers have the sign of the types of their values, but for the results of
routines, which have none. So comparisons follow the order of a type, except where the left operand
of a signed one is what a routine left.
-/

namespace Backend65816

open Ty Draft GraphState Piece List

variable {routine : Bool} {draft : Draft} {left right : Int} {due : List String}
  {value : TypedReg} {pair : VReg × Value}

/-- The outcome of a comparison of two numbers of a width, read as values of a type. -/
def Ty.compare (type : Ty) (width : Width) (condition : Cond) (left right : Int) : Bool :=
  if type.isSigned then condition.eval (width.signed left) (width.signed right)
  else condition.eval left right

def Draft.Carries (draft : Draft) (width : Width) (state : GraphState) : Value → Prop
  | .reg register =>
    register ≠ 0 ∧ (draft.info register).width = width ∧ width.Holds (state.registers register)
  | .imm number => width.Holds number

def Draft.Live (draft : Draft) : Prop :=
  draft.current < draft.blocks.size ∧ draft.isDead = false

theorem Draft.Carries.holds {width : Width} {state : GraphState} {value : Value}
    (carries : draft.Carries width state value) : width.Holds (state.read value) := by
  cases value with
  | reg => exact carries.2.2
  | imm => exact carries

theorem Ty.compare_orient (type : Ty) (width : Width) (cond : Cond) (swapped : Bool)
    (left right : Int) :
    type.compare width (Lower.orient cond swapped) left right =
      if swapped then type.compare width cond right left
      else type.compare width cond left right := by
  unfold Ty.compare Lower.orient
  cases swapped with
  | true => simp only [if_true, Cond.eval_swap]
  | false => rfl

/-! ## Mapping the signed order -/

section Bias

variable {after : Draft} {graph : Graph} {args : Nat → Int} {state : GraphState} {width : Width}
  {type : Ty} {cond : Cond} {around : Surroundings}

/-- A state in which a register holds the place of a number in the signed order. -/
def GraphState.mapped (state : GraphState) (width : Width) (target : VReg) (number : Int) :
    GraphState := state.write width target (number + width.signBit)

section

variable (wf : draft.WellFormed signs) (alive : draft.isDead = false)
include wf alive

theorem Draft.WellFormed.step_addResult {info : VRegInfo} {action : Action}
    (completes : graph.Completes (draft.addResult info action)) {last : GraphState}
    (acts : graph.width draft.vregs.size = info.width → graph.act args state action = some last) :
    graph.step args (draft.here state) = some (.inl ((draft.addResult info action).here last)) := by
  have added := wf.addReg info
  have known : (draft.addReg info).vregs[draft.vregs.size]? = some info := Array.getElem?_push_size
  exact completes.step_emit added.wellFormed alive
    (acts (((added.wellFormed.emit action).toLeads.completes completes).width_eq known))

theorem Draft.WellFormed.bias_live (reg : VReg) :
    (draft.bias reg).WellFormed signs ∧ (draft.bias reg).isDead = false := by
  have added := (wf.addReg { width := (draft.info reg).width }).wellFormed
  exact ⟨(added.emit _).wellFormed, added.isDead_emit.trans alive⟩

theorem Draft.step_bias {reg : VReg} (completes : graph.Completes (draft.bias reg))
    (carries : draft.Carries width state (.reg reg)) :
    graph.step args (draft.here state) = some (.inl ((draft.bias reg).here
      (state.mapped width draft.vregs.size (state.registers reg)))) := by
  obtain ⟨-, rfl, holds⟩ := carries
  refine wf.step_addResult alive completes fun width_eq => ?_
  simp_all [Graph.act, GraphState.read, apply_xor_signBit, GraphState.mapped, GraphState.write]

end

@[simp]
theorem GraphState.mapped_self (state : GraphState) (target : VReg) (num : Int) :
    (state.mapped width target num).registers target = width.truncate (num + width.signBit) :=
  state.write_self ..

theorem GraphState.mapped_of_lt (state : GraphState) {target other : VReg} (num : Int)
    (below : other < target) :
    (state.mapped width target num).registers other = state.registers other :=
  state.write_of_ne (Nat.ne_of_lt below)

/-- Equality does not depend on the order, and otherwise the order is that of the type. -/
theorem Ty.compare_plain {flag : Bool} (plain : flag = false ∨ cond.isEquality = true)
    (signed : cond.isEquality = true ∨ flag = type.isSigned) (left_holds : width.Holds left)
    (right_holds : width.Holds right) :
    cond.eval left right = type.compare width cond left right := by
  unfold Ty.compare
  split
  · next holds =>
    have equality : cond.isEquality = true :=
      signed.elim id fun same => plain.resolve_left (by rw [same, holds]; decide)
    simp_all [eval_signed_of_isEquality]
  · rfl

theorem Ty.compare_mapped (signed : cond.isEquality = true ∨ true = type.isSigned)
    (left_holds : width.Holds left) (right_holds : width.Holds right) :
    cond.eval (width.truncate (left + width.signBit)) (width.truncate (right + width.signBit)) =
      type.compare width cond left right := by
  grind [eval_biased, Ty.compare, eval_signed_of_isEquality]

/-- The operands of a comparison are compared in the order of their type, if the left one has the
sign of the type. -/
theorem Lower.reaches_comparable {left : VReg} {right : Value} (wf : draft.WellFormed signs)
    (alive : draft.isDead = false) (known : ∀ reg, right = .reg reg → reg < draft.vregs.size)
    (ran : comparable cond left right around draft = .ok (pair, after))
    (signed : cond.isEquality = true ∨ (draft.info left).signed = type.isSigned)
    (completes : graph.Completes after) (carries : draft.Carries width state (.reg left))
    (carries' : draft.Carries width state right) :
    ∃ steps last, graph.ReachesIn args steps (draft.here state) (after.here last) ∧
      cond.eval (last.registers pair.1) (last.read pair.2) =
        type.compare width cond (state.registers left) (state.read right) := by
  obtain ⟨first, second⟩ := pair
  rcases comparable_ok ran with ⟨plain, same, rfl⟩ | ⟨flagged, rfl, ways⟩
  · cases same
    exact ⟨0, state, .refl _, compare_plain plain signed carries.holds carries'.holds⟩
  rw [flagged] at signed
  obtain ⟨wf', alive'⟩ := wf.bias_live alive left
  rcases ways with ⟨num, rfl, rfl, rfl⟩ | ⟨reg, rfl, rfl, rfl⟩
  · refine ⟨1, _, .single (step_bias wf alive completes carries), ?_⟩
    rw [mapped_self, carries.2.1]
    exact compare_mapped signed carries.holds carries'
  · have leads : draft.Leads (draft.bias left) := (wf.addResult _ _).toLeads
    have leads' : (draft.bias left).Leads ((draft.bias left).bias reg) :=
      (wf'.addResult _ _).toLeads
    have below := known reg rfl
    let mid := state.mapped width draft.vregs.size (state.registers left)
    have kept : mid.registers reg = state.registers reg := state.mapped_of_lt _ below
    have moved : (draft.bias left).Carries width mid (.reg reg) :=
      ⟨carries'.1, (congrArg VRegInfo.width (leads.info_eq below)).trans carries'.2.1,
        kept ▸ carries'.2.2⟩
    refine ⟨2, _,
      (Graph.ReachesIn.single (step_bias wf alive (leads'.completes completes) carries)).tail
        (step_bias wf' alive' completes moved), ?_⟩
    have older : draft.vregs.size < (draft.bias left).vregs.size :=
      draft.bias_vregs left ▸ Nat.lt_succ_self _
    rw [GraphState.read, mapped_self, mapped_of_lt _ _ older, mapped_self, kept]
    exact compare_mapped signed carries.holds carries'.holds

theorem Draft.Sound.wellFormed (sound : draft.Sound) (inside : draft.current < draft.blocks.size) :
    draft.WellFormed signs :=
  WellFormed.of_same sound inside le_rfl id rfl rfl

end Bias

/-! ## Comparisons -/

/-- A comparison follows the order of the type of its operands: it tests for equality, the type has
no sign, or the operand that is compared on the left is not what a routine left. -/
def Operands.Ordered (found : Operands) (condition : Cond) (left right : Expr) : Prop :=
  condition.isEquality = true ∨ found.left.type.isSigned = false ∨
    (if found.swapped then right.viaRoutine else left.viaRoutine) = false

/-- The outcome of a comparison of operands in a state, in the order of their type. -/
def Operands.outcome (found : Operands) (condition : Cond) (width : Width) (state : GraphState) :
    Bool :=
  let first := state.registers found.left.register
  let second := state.read found.right
  if found.swapped then found.left.type.compare width condition second first
  else found.left.type.compare width condition first second

section Comparisons

variable {left right : Expr} {condition : Cond} {around : Surroundings} {middle after : Draft}
  {graph : Graph} {arguments : Nat → Int} {state : GraphState} {width : Width}

theorem Draft.Gives.signed_of_ordered
    (gives : draft.Gives due routine value) (nonzero : value.register ≠ 0)
    (ordered : condition.isEquality = true ∨ value.type.isSigned = false ∨ routine = false) :
    condition.isEquality = true ∨ (draft.info value.register).signed = value.type.isSigned := by
  refine ordered.imp_right fun ordered => (gives.signed nonzero).elim id fun own => ?_
  simp_all

variable {found : Operands} {last : Draft}

theorem Lower.reaches_compared (sound : draft.Sound)
    (computed : operands (.compare condition) left.code right.code .unspecified around draft =
      .ok (some found, middle))
    (compared : comparable (orient condition found.swapped) found.left.register found.right
      around middle = .ok (pair, last))
    (ordered : found.Ordered condition left right) (live : middle.Live)
    (carries : middle.Carries width state (.reg found.left.register))
    (carries' : middle.Carries width state found.right) :
    last.WellFormed signs ∧ last.isDead = false ∧ (graph.Completes last →
      ∃ steps state', graph.ReachesIn arguments steps (middle.here state) (last.here state') ∧
        (orient condition found.swapped).eval (state'.registers pair.1) (state'.read pair.2) =
          found.outcome condition width state) := by
  let piece : Piece := ⟨around.context, around.signature,
    left.nodes ++ right.nodes, draft, false⟩
  obtain ⟨built, -, holds⟩ := (makes_operands (left.lowers piece (subset_append_left _ _))
    (right.lowers piece (subset_append_right _ _))).made (.refl draft) (.start sound) computed
  obtain ⟨gives, -, known⟩ := holds found rfl
  have wf := built.sound.wellFormed live.1
  obtain ⟨wf', alive'⟩ : last.WellFormed signs ∧ last.isDead = false := by
    rcases comparable_ok compared with ⟨-, -, rfl⟩ | ⟨-, -, ⟨_, -, rfl, -⟩ | ⟨reg, -, rfl, -⟩⟩
    · exact ⟨wf, live.2⟩
    · exact wf.bias_live live.2 _
    · obtain ⟨wf', alive'⟩ := wf.bias_live live.2 found.left.register
      exact wf'.bias_live alive' reg
  refine ⟨wf', alive', fun completes => ?_⟩
  have oriented : (orient condition found.swapped).isEquality = condition.isEquality := by
    cases condition <;> cases found.swapped <;> rfl
  have signed := oriented.symm ▸ gives.signed_of_ordered carries.1 ordered
  rw [Operands.outcome, ← Ty.compare_orient]
  exact reaches_comparable wf live.2 known compared signed completes carries carries'

/-- Behind its operands, the code of an ordered comparison gets to a point that the outcome in the
order of their type decides. -/
def Lower.Follows {α : Type} (steps : Lower α) (around : Surroundings) (draft : Draft)
    (condition : Cond) (left right : Expr) (goal : α → Draft → Bool → GraphPoint → Prop) : Prop :=
  ∀ ⦃result : α⦄ ⦃after : Draft⦄, steps around draft = .ok (result, after) →
    ∃ found middle, operands (.compare condition) left.code right.code .unspecified around draft =
        .ok (found, middle) ∧
      ∀ operands ∈ found, operands.Ordered condition left right →
      ∀ (graph : Graph) (arguments : Nat → Int) (state : GraphState) (width : Width),
        graph.Completes after → middle.Live →
        middle.Carries width state (.reg operands.left.register) →
        middle.Carries width state operands.right →
        ∃ steps point, graph.ReachesIn arguments steps (middle.here state) point ∧
          goal result after (operands.outcome condition width state) point

theorem Lower.compareValue_follows (sound : draft.Sound) (cond : Cond) (left right : Expr) :
    (compareValue cond left.code right.code).Follows around draft cond left right
      fun res after truth point =>
        ∃ state, point = after.here state ∧ state.registers res.register = truth.toInt := by
  intro res after ran
  obtain ⟨found, middle, computed, ways⟩ := compareValue_ok ran
  refine ⟨found, middle, computed, fun operands mem ordered graph arguments state width completes
    live carries carries' => ?_⟩
  rcases ways with ⟨rfl, -, -⟩ | ⟨other, pair, last, rfl, compared, rfl, rfl⟩
  · cases mem
  cases mem
  obtain ⟨wf, alive, reaches⟩ :=
    reaches_compared sound computed compared ordered live carries carries'
  obtain ⟨steps, state', reached, decided⟩ :=
    reaches ((wf.addResult _ _).toLeads.completes completes)
  have stepped := wf.step_addResult alive completes fun width_eq =>
    show graph.act arguments state' _ = some (state'.write .byte _ _) by rw [Graph.act, width_eq]
  refine ⟨steps + 1, _, reached.tail stepped, _, rfl, ?_⟩
  rw [decided, write_self]
  exact Width.holds_toInt ..

theorem Lower.branchOnComparison_follows (sound : draft.Sound) (cond : Cond)
    (left right : Expr) (yes no : BlockId) :
    (branchOnComparison cond left.code right.code yes no).Follows around draft cond left
      right fun _ _ truth point => ∃ state, point = ⟨if truth then yes else no, 0, state⟩ := by
  intro res after ran
  obtain ⟨found, middle, computed, ran⟩ := bind_ok.mp ran
  refine ⟨found, middle, computed, fun operands mem ordered graph arguments state width completes
    live carries carries' => ?_⟩
  cases mem
  obtain ⟨pair, last, compared, ran⟩ := bind_ok.mp ran
  cases ran
  obtain ⟨wf, alive, reaches⟩ :=
    reaches_compared sound computed compared ordered live carries carries'
  obtain ⟨steps, state', reached, decided⟩ := reaches ((wf.terminate _).toLeads.completes completes)
  refine ⟨steps + 1, _, reached.tail (completes.step_terminate wf alive ?_), state', rfl⟩
  rw [Terminator.follow, decided]

/-- The mapped copy of the scrutinee, if there is one, has its place in the signed order. -/
def MatchProgress.Mapped (progress : MatchProgress) (width : Width) (content : Int)
    (state : GraphState) : Prop :=
  ∀ biased ∈ progress.biased, state.registers biased = width.truncate (content + width.signBit)

/-- What a test of a match does: it decides in the order of the type of the value, and if it maps
the value, the mapped copy is there for later tests. -/
def Lower.Decides (progress later : MatchProgress) (condition : Cond) (value : TypedReg)
    (number : Int) (yes no : BlockId) (before after : Draft) : Prop :=
  ∀ (graph : Graph) (arguments : Nat → Int) (state : GraphState) (width : Width),
    let content := state.registers value.register
    graph.Completes after → before.Live → before.Carries width state (.reg value.register) →
    progress.Mapped width content state →
    ∃ steps last, graph.ReachesIn arguments steps (before.here state)
        ⟨if value.type.compare width condition content (width.truncate number) then yes else no, 0,
          last⟩ ∧
      last.registers value.register = content ∧ later.Mapped width content last

/-- The first test of a match that depends on the order maps the register for all of them. -/
theorem Lower.testMatch_decides {progress later : MatchProgress} {num : Int}
    {yes no : BlockId} (sound : draft.Sound) (gives : draft.Gives due routine value)
    (ordered : condition.isEquality = true ∨ value.type.isSigned = false ∨ routine = false)
    (ran : testMatch progress condition value.register num yes no around draft =
      .ok (later, after)) : Decides progress later condition value num yes no draft after := by
  intro graph arguments state width content completes live carries mapped
  have wf := sound.wellFormed live.1
  have alive := live.2
  have signed := gives.signed_of_ordered carries.1 ordered
  have holds : width.Holds content := carries.holds
  have cut := width.holds_truncate num
  unfold testMatch at ran
  rw [regInfo_bind, carries.2.1] at ran
  split at ran
  · next ordered =>
    rw [Bool.and_eq_true] at ordered
    rw [ordered.1] at signed
    have decided := compare_mapped signed holds cut
    cases known_biased : progress.biased with
    | some biased =>
      rw [known_biased] at ran
      cases ran
      have copied := mapped biased known_biased
      refine ⟨1, state, .single (completes.step_terminate wf alive ?_), rfl, ?_⟩
      · rw [Terminator.follow, GraphState.read, copied, decided]
      · rintro _ ⟨rfl⟩
        exact copied
    | none =>
      rw [known_biased] at ran
      cases ran
      obtain ⟨wf', alive'⟩ := wf.bias_live alive value.register
      have leads := (wf'.terminate (.branch condition draft.vregs.size
        (.imm (width.truncate (width.truncate num + width.signBit))) yes no)).toLeads
      refine ⟨2, _, (Graph.ReachesIn.single (step_bias wf alive
        (leads.completes completes) carries)).tail (completes.step_terminate wf' alive' ?_),
        state.mapped_of_lt _ gives.known, ?_⟩
      · rw [Terminator.follow, mapped_self, GraphState.read, decided]
      · rintro biased ⟨rfl⟩
        exact state.mapped_self ..
  · next plain =>
    cases ran
    refine ⟨1, state, .single (completes.step_terminate wf alive ?_), rfl, mapped⟩
    rw [Terminator.follow, GraphState.read, compare_plain ?_ signed holds cut]
    grind

theorem Lower.eq_of_check {α : Type} {res : Except Diagnostic α} {value : α}
    (ran : check res around draft = .ok (value, after)) : res = .ok value := by
  cases res <;> cases ran
  rfl

/-- Wherever the commands of a match come to a test of its scrutinee, the test decides by the order
of the type of the scrutinee, unless it depends on the sign of what a routine left. -/
def Lower.TestsFollow (around : Surroundings) (scrutinee : Expr) (arms : List Arm) (want : Ty)
    (draft after : Draft) : Prop :=
  ∃ value middle, scrutinee.code.value .unspecified around draft = .ok (value, middle) ∧
    (value.diverges = false → ∃ width kind meeting begun,
      around.context.unit.width? value.type = some width ∧
      scrutineeKind value.type around middle = .ok (kind, middle) ∧
      Meeting.start "match.end" want around middle = .ok (meeting, begun) ∧
      let (constantType, outcomes) := around.context.unit.constantOutcomes want
        ((codeOfArms arms).map fun arm => arm.body.source)
      let descriptor : MatchDescriptor :=
        { declaration := around.signature.name, kind, width, signed := value.type.isSigned
          arms := ((codeOfArms arms).zip outcomes).map fun (arm, const) =>
            { pattern := arm.pattern, const } }
      descriptor.check = .ok () ∧ ∀ front condition number yes no back,
        descriptor.emit (descriptor.plan around.context.settings.density) =
          front ++ .test condition MatchEmit.scrutinee number yes no :: back →
        ∃ progress before later behind,
          front.foldlM (matchStep ⟨value, constantType, codeOfArms arms⟩)
            { registers := [value.register], meeting } around begun = .ok (progress, before) ∧
          testMatch progress condition value.register number (progress.block yes)
            (progress.block no) around before = .ok (later, behind) ∧ behind.Leads after ∧
          (condition.isEquality = true ∨ value.type.isSigned = false ∨
              scrutinee.viaRoutine = false →
            Decides progress later condition value number (progress.block yes)
              (progress.block no) before behind))

/-- Every test of the scrutinee of a match is lowered from a draft in which its register still has
its sign. -/
theorem Lower.select_tests {scrutinee : Expr} {arms : List Arm} {want : Ty} {res : TypedReg}
    (sound : draft.Sound)
    (ran : selectValue scrutinee.code (codeOfArms arms) want around draft = .ok (res, after)) :
    TestsFollow around scrutinee arms want draft after := by
  let piece : Piece := ⟨around.context, around.signature,
    scrutinee.nodes ++ nodesOfArms arms, draft, false⟩
  have arms_lower := lowersArms piece arms (subset_append_right _ _)
  obtain ⟨value, middle, computed, ran⟩ := bind_ok.mp ran
  obtain ⟨built, -, gives⟩ :=
    ((scrutinee.lowers piece (subset_append_left _ _)).value _ _ _).made (.refl draft)
      (.start sound) computed
  refine ⟨value, middle, computed, fun completes => ?_⟩
  rw [if_neg (by rw [completes]; decide), bind_ok] at ran
  obtain ⟨width, sizing, sized, ran⟩ := ran
  obtain ⟨width_eq, sizing_eq⟩ := widthOf_ok sized
  rw [← sizing_eq, bind_ok] at ran
  obtain ⟨kind, kinding, kinds, ran⟩ := ran
  have kinding_eq := Piece.reads_scrutineeKind.same kinds
  rw [kinding_eq] at kinds
  rw [kinding_eq, read_bind, bind_ok] at ran
  obtain ⟨_, checking, checked, ran⟩ := ran
  rw [(Reads.check _).same checked, bind_ok] at ran
  obtain ⟨meeting, begun, starts, ran⟩ := ran
  obtain ⟨built, leads, meets⟩ := (makes_start _).made (.refl middle) built starts
  obtain ⟨finished, last, folded, finishes⟩ := bind_ok.mp ran
  refine ⟨width, kind, meeting, begun, width_eq, kinds, starts, eq_of_check checked,
    fun front condition num yes no back split => ?_⟩
  rw [split, foldlM_append] at folded
  obtain ⟨progress, before, fronts, folded⟩ := bind_ok.mp folded
  obtain ⟨later, behind, tested, backs⟩ := bind_ok.mp folded
  have site_lowers (type : Ty) : piece.LowersArms (MatchSite.arms ⟨value, type, codeOfArms arms⟩) :=
    arms_lower
  obtain ⟨built, leads', meets, rest, regs⟩ :=
    (makes_matchSteps (site_lowers _) meets).made (.refl begun) built fronts
  have register_eq : progress.register MatchEmit.scrutinee = value.register := by
    rw [MatchProgress.register, ← regs]
    rfl
  obtain ⟨built', -, meets, -⟩ :=
    (makes_matchStep (site_lowers _) meets).made (.refl before) built tested
  obtain ⟨built', back_leads, meets, -⟩ :=
    (makes_matchSteps (site_lowers _) meets).made (.refl behind) built' backs
  obtain ⟨-, last_leads, -⟩ := (makes_finish meets).made (.refl last) built' finishes
  rw [matchStep, register_eq] at tested
  refine ⟨progress, before, later, behind, fronts, tested, back_leads.trans last_leads,
    fun ordered => ?_⟩
  exact testMatch_decides built.sound (gives.of_leads (leads.trans leads')) ordered tested

/-- Comparisons follow the order of the type of their operands: as values, as conditions and as
tests of a match, unless they depend on the sign of what a routine left. -/
theorem Lower.comparisons_follow_types (around : Surroundings) {draft : Draft}
    (sound : draft.Sound) :
    (∀ condition left right,
      (compareValue condition (Expr.code left) (Expr.code right)).Follows around draft condition
        left right fun result after truth point =>
          ∃ state, point = after.here state ∧ state.registers result.register = truth.toInt) ∧
    (∀ condition left right yes no,
      (branchOnComparison condition (Expr.code left) (Expr.code right) yes no).Follows around draft
        condition left right
        fun _ _ truth point => ∃ state, point = ⟨if truth then yes else no, 0, state⟩) ∧
    (∀ scrutinee arms want result after,
      selectValue (Expr.code scrutinee) (codeOfArms arms) want around draft = .ok (result, after) →
      TestsFollow around scrutinee arms want draft after) := by
  exact ⟨compareValue_follows sound, branchOnComparison_follows sound,
    fun _ _ _ _ _ lowered => select_tests sound lowered⟩

end Comparisons

def emptyUnit : Surroundings where
  context :=
    { unit := {}, signatures := [], plan := { tags := { limit := 0 } }, settings := default }
  signature := { name := "less" }

theorem constants_compared_signed : ∃ found middle result after,
      Lower.operands (.compare .lt) (Expr.int (-7) .i8).code (Expr.int 3 .i8).code .unspecified
        emptyUnit {} = .ok (some found, middle) ∧ found.left.type = .i8 ∧ middle.Live ∧
      Lower.compareValue .lt (Expr.int (-7) .i8).code (Expr.int 3 .i8).code emptyUnit {} =
        .ok (result, after) ∧
      ∀ (graph : Graph) (arguments : Nat → Int) (state : GraphState), graph.Completes after →
        middle.Carries .byte state (.reg found.left.register) →
        ∃ steps state', graph.ReachesIn arguments steps (middle.here state) (after.here state') ∧
          state'.registers result.register = (found.outcome .lt .byte state).toInt := by
  have sound : ({} : Draft).Sound := wellFormed_empty signs
  obtain ⟨found, middle, computed, follows⟩ :=
    (Lower.comparisons_follow_types emptyUnit sound).1 .lt (.int (-7) .i8) (.int 3 .i8) rfl
  cases computed
  refine ⟨_, _, _, _, rfl, rfl, ⟨by decide, rfl⟩, rfl,
    fun graph arguments state completes carries => ?_⟩
  obtain ⟨steps, _, reached, state', rfl, decided⟩ := follows _ rfl (.inr (.inr rfl)) graph
    arguments state .byte completes ⟨by decide, rfl⟩ carries rfl
  exact ⟨steps, state', reached, decided⟩

def quotient : Expr := .binary (.routine .div) (.int (-7) .i8) (.int 2 .i8)

/-- A quotient of minus three is less than three. But a routine left it, and it is compared as the
number 253. -/
theorem quotient_compared_unsigned : ∃ found middle,
      Lower.operands (.compare .lt) quotient.code (Expr.int 3 .i8).code .unspecified emptyUnit {} =
        .ok (some found, middle) ∧
      Lower.compareValue .lt quotient.code (Expr.int 3 .i8).code emptyUnit {} =
        .ok ({ register := middle.vregs.size, type := .bool }, middle.addResult { width := .byte }
            (.setCond .lt middle.vregs.size found.left.register (.imm 3))) ∧
      Cond.lt.eval 253 3 = false ∧ found.left.type.compare .byte .lt 253 3 = true := by
  have computed : ∃ (register : VReg) (middle : Draft), Lower.operands (.compare .lt) quotient.code
      (Expr.int 3 .i8).code .unspecified emptyUnit {} =
        .ok (some ⟨⟨register, .i8⟩, .imm 3, false⟩, middle) ∧
      (middle.info register).signed = false := by
    refine ⟨_, _, rfl, ?_⟩
    simp only [Draft.info, emit_vregs]
    rfl
  obtain ⟨register, middle, computed, plain⟩ := computed
  -- Where the register on the left has no sign, the operands are compared as they are.
  have compared : Lower.comparable .lt register (.imm 3) emptyUnit middle =
      .ok ((register, .imm 3), middle) := by
    unfold Lower.comparable
    rw [Lower.regInfo_bind, plain]
    rfl
  exact ⟨_, middle, computed,
    Lower.bind_ok.mpr ⟨_, _, computed, Lower.bind_ok.mpr ⟨_, _, compared, rfl⟩⟩, rfl, rfl⟩

end Backend65816
