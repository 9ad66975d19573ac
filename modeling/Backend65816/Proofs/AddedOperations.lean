import Backend65816.Proofs.AddedTransfers

/-!
# Code of operations and conditionals

The value of an operation is in a new register. The routines of operations that the machine lacks
take and give values without a sign, so their results lack that of their type.
-/

namespace Backend65816

open List Lower

def BinaryOp.callsRoutine (operator : BinaryOp) (left right : Expr) : Bool :=
  (foldLiterals? operator left right).isNone &&
    match operator with
    | routine _ => true
    | arithmetic kind => kind.isShift && right.literal?.isNone
    | compare _ | and | or | unknown _ => false

/-! ## Checks of matches -/

/-- A check that reports no problem of a convention. -/
def ChecksOther {α : Type} (outcome : Except Diagnostic α) : Prop :=
  ∀ problem, outcome = .error problem → problem.kind ≠ .convention

namespace ChecksOther

variable {desc : MatchDescriptor} {pattern : Pattern} {α β : Type} {res : Except Diagnostic α}

theorem ok {value : α} : ChecksOther (.ok value) := nofun

theorem report {code : DiagnosticCode} {message : String} (other : code.kind ≠ .convention) :
    ChecksOther (desc.report code message : Except Diagnostic α) := by
  rintro _ ⟨rfl⟩
  exact other

theorem bind {next : α → Except Diagnostic β} (early : ChecksOther res)
    (late : ∀ value, ChecksOther (next value)) : ChecksOther (res >>= next) := by
  cases res with
  | error problem =>
    rintro _ ⟨rfl⟩
    exact early problem rfl
  | ok value => exact late value

theorem map {f : α → β} (checks : ChecksOther res) : ChecksOther (res.map f) := by
  cases res with
  | error problem =>
    rintro _ ⟨rfl⟩
    exact checks problem rfl
  | ok value => exact ok

theorem checkValues : ChecksOther (desc.checkValues pattern) := by
  refine bind ?_ fun _ => ?_
  · cases pattern with
    | variant =>
      refine map ?_
      unfold MatchDescriptor.variantValue
      grind [report, ok, DiagnosticCode.kind]
    | _ => exact ok
  · grind [report, ok, DiagnosticCode.kind]

theorem checkNumeric : ChecksOther (desc.checkNumeric pattern) := by
  unfold MatchDescriptor.checkNumeric
  split
  · exact report nofun
  all_goals exact checkValues

mutual

theorem coverage : ∀ pattern : Pattern, ChecksOther (pattern.coverage desc)
  | .wildcard | .bind _ => ok
  | .any alternatives => coverageOfList alternatives
  | .literal _ | .range _ _ _ => map checkNumeric
  | .variant _ _ => map checkValues

theorem coverageOfList : ∀ patterns, ChecksOther (coverageOfList desc patterns)
  | [] => ok
  | pattern :: rest => (coverage pattern).bind fun _ => (coverageOfList rest).bind fun _ => ok

end

theorem check : ChecksOther desc.check := by
  unfold MatchDescriptor.check
  split
  · exact report nofun
  · refine (coverageOfList _).bind fun covered => ?_
    split
    · exact ok
    · split
      · split
        · exact ok
        · exact report nofun
      · split
        · exact ok
        · exact report nofun
      · exact report nofun

end ChecksOther

namespace Piece

variable {piece : Piece} {due : List String} {start : Draft}

/-! ## Operations -/

variable {width : Width} {type : Ty}

theorem makes_immediate {literal : Int} :
    piece.Makes due start (immediate literal type) fun _ operand => ∃ value, operand = .imm value :=
  .reads (.checkLiteral ..) fun _ => .read rfl fun _ =>
    .pure fun _ _ => ⟨_, rfl⟩

section

variable {left : TypedReg} {right : Value}

theorem makes_conditionValue {branch : (yes no : BlockId) → Lower Unit}
    (branches : ∀ start yes no, piece.Lays due start (branch yes no)) :
    piece.MakesValue due start false (conditionValue branch) := by
  refine (Makes.newReg "" .byte false).bind fun reg mid _ temp => ?_
  have permits (value) {vregs} : piece.Permits vregs (.const reg value) :=
    permits_of_owns (.inl temp.new) rfl rfl
  refine (Makes.newBlock _).andThen fun yes => (Makes.newBlock _).andThen fun no =>
    (Makes.newBlock _).andThen fun last => (branches mid yes no).seq ?_
  refine (Makes.enter yes).seq <| (Makes.emit (permits 1)).seq <|
    (Makes.jump _).seq <| (Makes.enter no).seq ?_
  exact (Makes.emit (permits 0)).seq <| (Makes.jump _).seq <|
    (Makes.enter last).seq <| .pure fun leads _ => Temp.value (temp.of_leads leads) due

theorem makes_callRoutine {name : String} :
    piece.MakesValue due start true (callRoutine name width type left right) := by
  have call (argument : TypedReg) : piece.MakesValue due start true (do
      let sig := Signature.helper name width (← read).signature.bank
      let results ← callDirect sig [left, argument]
      return { (results.headD .void) with type }) := by
    refine .read rfl fun _ => (makes_callDirect (fun _ fn scratch _ =>
      .routine fn scratch) _).bind fun results mid _ gives => .pure fun leads built => ?_
    cases results with
    | nil => exact .nothing built.sound rfl
    | cons value rest =>
      obtain ⟨given, listed⟩ := gives value (.head _)
      have given := given.of_leads leads
      refine ⟨given.known, given.lasting, fun nonzero => .inr ⟨rfl, ?_⟩⟩
      obtain ⟨slot, slot_mem, type_eq⟩ := listed.resolve_left nonzero
      rw [mem_singleton.mp slot_mem] at type_eq
      have signed := (given.signed nonzero).resolve_right nofun
      rwa [← type_eq] at signed
  cases right with
  | imm value => exact (makes_constant value type).andThen fun _ => call _
  | reg reg => exact call _

theorem makes_instruct {kind : BinKind} :
    piece.MakesValue due start false (instruct kind width type left right) := by
  refine (Makes.newReg "" width type.isSigned).bind fun reg mid _ temp => ?_
  cases right with
  | imm amount =>
    exact .ite (fun _ => .ite (fun _ => temp.makes rfl rfl) fun _ => temp.makes rfl rfl) fun _ =>
      temp.makes rfl rfl
  | reg reg => exact temp.makes rfl rfl

theorem isShift_shiftKind (kind : BinKind) (type : Ty) :
    (shiftKind kind type).isShift = kind.isShift := by
  unfold shiftKind
  split
  · next shift => rw [shift.1]; rfl
  · rfl

theorem makes_operate {operator : BinaryOp} {found : Operands} {routine : Bool}
    (calls : ∀ kind, operator = .routine kind → routine = true)
    (shifts : ∀ kind reg, operator = .arithmetic kind → kind.isShift = true →
      found.right = .reg reg → routine = true) :
    piece.MakesValue due start routine (operate operator found) := by
  cases operator with
  | arithmetic kind =>
    refine .guard nofun <| .reads (.widthOf _) fun width => ?_
    dsimp only
    split
    · simp_all [isShift_shiftKind, makes_callRoutine]
    · exact makes_instruct.imp fun _ gives => gives.weaken
  | routine kind =>
    rw [calls kind rfl]
    exact .guard nofun <| .reads (.widthOf _) fun _ => makes_callRoutine
  | _ => exact .fail nofun

end

section Binary

variable {left right : ExprCode} {first second : Bool} {operator : BinaryOp} {cond : Cond}
  {yes no : BlockId} {want : Ty} (lefts : piece.Lowers first left)
  (rights : piece.Lowers second right)
include lefts rights

theorem makes_operands :
    piece.Makes due start (operands operator left right want) fun draft found =>
      ∀ operands ∈ found,
        draft.Gives due (if operands.swapped then second else first) operands.left ∧
        (right.source.literal?.isSome → ∃ value, operands.right = .imm value) ∧
        ∀ reg, operands.right = .reg reg → reg < draft.vregs.size := by
  unfold operands
  split
  · refine (lefts.value due start want).bind fun value mid _ gives => ?_
    refine .ite (fun _ => .pure fun _ _ _ mem => nomatch mem) fun _ =>
      makes_immediate.bind fun operand _ leads immediate => .pure fun leads' _ found mem => ?_
    cases mem
    obtain ⟨num, rfl⟩ := immediate
    exact ⟨gives.of_leads (leads.trans leads'), fun _ => ⟨num, rfl⟩, nofun⟩
  · next missing =>
    have other : ¬right.source.literal?.isSome := by rw [missing]; exact Bool.false_ne_true
    refine (rights.value due start want).bind fun value mid _ gives => ?_
    refine .ite (fun _ => .pure fun _ _ _ mem => nomatch mem) fun _ => .ite (fun _ => ?_) fun _ => ?_
    · refine makes_immediate.bind fun operand _ leads immediate =>
        .pure fun leads' _ found mem => ?_
      cases mem
      obtain ⟨num, rfl⟩ := immediate
      exact ⟨gives.of_leads (leads.trans leads'), fun known => absurd known other, nofun⟩
    · refine .reads (.checkLiteral ..) fun _ =>
        (makes_constant ..).bind fun constant _ leads made => ?_
      refine .ite (fun _ => .pure fun _ _ _ mem => nomatch mem) fun _ =>
        .pure fun leads' _ found mem => ?_
      cases mem
      refine ⟨(made.of_leads leads').weaken, fun known => absurd known other, ?_⟩
      rintro reg ⟨rfl⟩
      exact (gives.of_leads (leads.trans leads')).known
  · next missing =>
    have other : ¬right.source.literal?.isSome := by rw [missing]; exact Bool.false_ne_true
    refine (Makes.whilePending (lefts.value _ start want)).bind fun value mid _ gives => ?_
    refine .ite (fun _ => .pure fun _ _ _ mem => nomatch mem) fun _ => ?_
    refine (rights.value due mid _).bind fun second last leads gives' => ?_
    refine .ite (fun _ => .pure fun _ _ _ mem => nomatch mem) fun _ =>
      .guard nofun <| .pure fun leads' _ found mem => ?_
    cases mem
    refine ⟨(gives.of_leads (leads.trans leads')).of_pending (subset_append_right _ _),
      fun known => absurd known other, ?_⟩
    rintro reg ⟨rfl⟩
    exact (gives'.of_leads leads').known

theorem makes_branchOnComparison :
    piece.Lays due start (branchOnComparison cond left right yes no) := by
  refine (makes_operands lefts rights).andThen fun found => ?_
  cases found with
  | none => exact .done
  | some operands => exact makes_branchOn ..

theorem makes_compareValue : piece.MakesValue due start false (compareValue cond left right) := by
  refine (makes_operands lefts rights).andThen fun found => ?_
  cases found with
  | none => exact .pure fun _ built => .nothing built.sound rfl
  | some operands =>
    refine (makes_comparable ..).andThen fun _ => ?_
    exact .define rfl rfl fun _ _ _ temp => .pure fun leads _ =>
      Temp.value (temp.of_leads leads) due

theorem makes_branchOnBoth : piece.Lays due start (branchOnBoth left right yes no) :=
  (Makes.newBlock _).andThen fun _ => (lefts.branch _ _ _ _).andThen fun _ =>
    (Makes.enter _).andThen fun _ => rights.branch _ _ _ _

theorem makes_branchOnEither : piece.Lays due start (branchOnEither left right yes no) :=
  (Makes.newBlock _).andThen fun _ => (lefts.branch _ _ _ _).andThen fun _ =>
    (Makes.enter _).andThen fun _ => rights.branch _ _ _ _

variable (operator)

theorem values_binary : piece.Values (operator.callsRoutine left.source right.source)
      (binaryValue operator left right) := by
  intro due start want
  cases operator with
  | and =>
    refine (makes_conditionValue fun _ _ _ => ?_).imp fun _ gives => gives.weaken
    exact makes_branchOnBoth lefts rights
  | or =>
    refine (makes_conditionValue fun _ _ _ => ?_).imp fun _ gives => gives.weaken
    exact makes_branchOnEither lefts rights
  | compare cond =>
    exact (makes_compareValue lefts rights).imp fun _ gives => gives.weaken
  | _ =>
    unfold binaryValue
    dsimp only
    split
    · exact .reads (.checkLiteral ..) fun _ => (makes_constant ..).imp fun _ gives => gives.weaken
    · next folded =>
      refine (makes_operands lefts rights).bind fun found mid _ holds => ?_
      cases found with
      | none => exact .pure fun _ built => .nothing built.sound rfl
      | some found =>
        refine makes_operate (fun kind same => ?_) fun kind reg same shift right_eq => ?_
        · rw [BinaryOp.callsRoutine.eq_def, folded, same]
          rfl
        · simp_all [BinaryOp.callsRoutine.eq_def]

theorem lowers_binary :
    piece.Lowers (operator.callsRoutine left.source right.source) (.binary operator left right) := by
  have lowers := lowers_ofValue (.binary operator left.source right.source)
    (values_binary operator lefts rights)
  cases operator with
  | and => exact { lowers with branch := fun _ _ _ _ => makes_branchOnBoth lefts rights }
  | or => exact { lowers with branch := fun _ _ _ _ => makes_branchOnEither lefts rights }
  | compare cond =>
    exact { lowers with branch := fun _ _ _ _ => makes_branchOnComparison lefts rights }
  | _ => exact lowers

end Binary

section Unary

variable {operand : ExprCode} {routine : Bool} (operator : UnaryOp)

theorem reads_unaryKind : Lower.Reads false (unaryKind operator type) := by
  cases operator with
  | unknown => exact .fail nofun
  | _ => exact .ite (.pure _) (.fail nofun)

variable (lowers : piece.Lowers routine operand)
include lowers

theorem values_unary : piece.Values false (unaryValue operator operand) := by
  intro due start want
  unfold unaryValue
  dsimp only
  split
  · exact makes_constant ..
  · refine (lowers.value due start want).bind fun src mid _ gives => ?_
    refine .ite (fun diverges => .pure fun leads _ => (gives.of_leads leads).of_diverges diverges)
      fun _ => .reads (reads_unaryKind _) fun kind => .reads (.regInfo _) fun info => ?_
    exact .compute rfl rfl

theorem lowers_unary : piece.Lowers false (.unary operator operand) := by
  have unary := lowers_ofValue (.unary operator operand.source) (values_unary operator lowers)
  cases operator with
  | not => exact { unary with branch := fun due start yes no => lowers.branch due start no yes }
  | _ => exact unary

theorem values_cast : piece.Values false fun _ => castValue operand type := by
  intro due start want
  refine (lowers.value due start type).bind fun src mid _ gives => ?_
  refine .ite (fun diverges => .pure fun leads _ => (gives.of_leads leads).of_diverges diverges)
    fun _ => .reads (.widthOf type) fun width => ?_
  refine .guard nofun <| .guard nofun ?_
  refine (Makes.newReg "" width type.isSigned).bind fun reg _ _ temp =>
    .reads (.regInfo _) fun info => ?_
  exact .ite (fun _ => temp.makes rfl rfl) fun _ => temp.makes rfl rfl

theorem lowers_cast : piece.Lowers false (.cast operand type) :=
  lowers_ofValue _ (values_cast lowers)

end Unary

/-! ## Conditional expressions -/

theorem makes_testMatch (progress : MatchProgress) (cond : Cond) (reg : VReg)
    (value : Int) (yes no : BlockId) :
    piece.Makes due start (testMatch progress cond reg value yes no)
      fun _ later => later.meeting = progress.meeting ∧ later.registers = progress.registers := by
  refine .reads (.regInfo reg) fun info => .ite (fun _ => ?_) fun _ =>
    (Makes.terminate (by nofun)).andThen fun _ => .pure fun _ _ => ⟨rfl, rfl⟩
  have finish (biased : VReg) : piece.Makes due start (do
      let right ← biasValue info.width (.imm (info.width.truncate value))
      terminate (.branch cond biased right yes no)
      return { progress with biased := some biased }) fun _ later =>
        later.meeting = progress.meeting ∧ later.registers = progress.registers :=
    (makes_biasValue ..).andThen fun _ => (Makes.terminate (by nofun)).andThen fun _ =>
      .pure fun _ _ => ⟨rfl, rfl⟩
  cases progress.biased with
  | some biased => exact .reads (.pure biased) finish
  | none => exact makes_biasReg.andThen finish

theorem makes_indexFrom (reg : VReg) (base : Int) : piece.Lays due start (indexFrom reg base) := by
  refine .reads (.regInfo reg) fun info => (Makes.newReg ..).bind fun idx _ _ temp => ?_
  have permits {action : Action} (quiet : action.isLocal = true) (defs : action.defs = [idx]) :
      ∀ {vregs}, piece.Permits vregs action := permits_of_owns (.inl temp.new) quiet defs
  exact .ite (fun _ => (Makes.emit (permits rfl rfl)).seq .done)
    fun _ => (Makes.emit (permits rfl rfl)).seq .done

theorem makes_lookUpOutcome (type : Ty) (vals : List Int) (idx : VReg) :
    piece.MakesValue due start false (lookUpOutcome type vals idx) := by
  refine .read rfl fun _ => .reads .get fun _ => .reads (.widthOf type) fun width => ?_
  refine (Makes.newReg "" width type.isSigned).bind fun reg _ _ temp => ?_
  refine (Makes.modify fun {draft} _ built => ?_).seq <| temp.makes rfl rfl
  exact built.keep (.refl draft) rfl rfl fun _ => rfl

/-- Code of arms of a match that is code of the piece. -/
def LowersArms (piece : Piece) (arms : List ArmCode) : Prop :=
  ∀ arm ∈ arms, ∃ routine, piece.Lowers routine arm.body

theorem makes_armOutcome (scrutinee : TypedReg) {arm : ArmCode} {routine : Bool}
    (lowers : piece.Lowers routine arm.body) (want : Ty) :
    piece.MakesValue due start routine (armOutcome scrutinee arm want) := by
  refine .inScope ?_ fun leads gives => gives.of_leads leads
  split
  · exact .reads (.regInfo _) fun _ => .declare rfl rfl rfl fun _ mid _ _ =>
      lowers.value due mid want
  · exact lowers.value due start want

variable {progress : MatchProgress} {site : MatchSite}

theorem makes_matchStep (lowers : piece.LowersArms site.arms)
    (meets : piece.Meets start progress.meeting) {command : MatchCommand} :
    piece.Makes due start (matchStep site progress command) fun draft later =>
      piece.Meets draft later.meeting ∧ progress.registers <+: later.registers := by
  have keep : piece.Makes due start (pure progress) fun draft (later : MatchProgress) =>
      piece.Meets draft later.meeting ∧ progress.registers <+: later.registers :=
    .pure fun leads _ => ⟨meets.of_leads leads, prefix_rfl⟩
  cases command with
  | newBlock =>
    exact (Makes.newBlock _).andThen fun _ => .pure fun leads _ =>
      ⟨meets.of_leads leads, prefix_rfl⟩
  | enter => exact (Makes.enter _).andThen fun _ => keep
  | test =>
    refine (makes_testMatch ..).imp fun leads ⟨same, same'⟩ => ?_
    rw [same, same']
    exact ⟨meets.of_leads leads, prefix_rfl⟩
  | jump => exact (Makes.jump _).andThen fun _ => keep
  | index =>
    exact (makes_indexFrom ..).andThen fun _ => .pure fun leads _ =>
      ⟨meets.of_leads leads, prefix_append ..⟩
  | jumpTable => exact (Makes.terminate (by nofun)).andThen fun _ => keep
  | lookup =>
    refine (makes_lookUpOutcome ..).bind fun res mid leads _ => ?_
    exact (makes_add (meets.of_leads leads)).bind fun _ _ _ added =>
      .pure fun leads _ => ⟨added.of_leads leads, prefix_rfl⟩
  | arm num =>
    unfold matchStep
    dsimp only
    split
    · exact keep
    · next arm found =>
      obtain ⟨routine, body⟩ := lowers arm (mem_of_getElem? found)
      refine (makes_armOutcome _ body _).bind fun res mid leads _ => ?_
      exact (makes_add (meets.of_leads leads)).bind fun _ _ _ added =>
        .pure fun leads _ => ⟨added.of_leads leads, prefix_rfl⟩

theorem makes_matchSteps (lowers : piece.LowersArms site.arms) {commands : List MatchCommand}
    (meets : piece.Meets start progress.meeting) :
    piece.Makes due start (commands.foldlM (matchStep site) progress) fun draft later =>
      piece.Meets draft later.meeting ∧ progress.registers <+: later.registers :=
  .foldlM (fun draft (later : MatchProgress) => piece.Meets draft later.meeting ∧
      progress.registers <+: later.registers) ⟨meets, prefix_rfl⟩
    (fun _ holds => (makes_matchStep lowers holds.1).imp fun _ made =>
      ⟨made.1, holds.2.trans made.2⟩) fun leads holds => ⟨holds.1.of_leads leads, holds.2⟩

theorem reads_scrutineeKind : Lower.Reads false (scrutineeKind type) := by
  refine .ite (.pure _) (.ite (.pure _) (.theUnit rfl fun unit => ?_))
  cases unit.findEnum? type.text with
  | some declaration => exact .pure _
  | none => exact .fail nofun

theorem constantOutcomes_over (unit : CompilationUnit) (functions : List FunctionDecl)
    (impls : List ImplDecl) (want : Ty) (bodies : List Expr) :
    ({ unit with functions, impls } : CompilationUnit).constantOutcomes want bodies =
      unit.constantOutcomes want bodies := by
  induction bodies generalizing want with
  | nil => rfl
  | cons body rest ih =>
    have same : ({ unit with functions, impls } : CompilationUnit).constant? body want =
        unit.constant? body want := by
      cases body <;> rfl
    simp only [CompilationUnit.constantOutcomes, same, ih]

theorem values_select {scrutinee : ExprCode} {routine : Bool}
    (scrutinizes : piece.Lowers routine scrutinee) {arms : List ArmCode}
    (lowers : piece.LowersArms arms) : piece.Values false (selectValue scrutinee arms) := by
  intro due start want
  refine (scrutinizes.value due start _).bind fun value mid _ gives => ?_
  refine .ite (fun diverges => .pure fun leads _ => (gives.of_leads leads).of_diverges diverges)
    fun _ => .reads (.widthOf _) fun width => .reads reads_scrutineeKind fun kind => ?_
  refine .read ?_ fun _ => .check (fun _ failed => .inl (ChecksOther.check _ failed)) fun _ => ?_
  · funext around functions impls
    dsimp only [Surroundings.over]
    rw [constantOutcomes_over]
  exact (makes_start "match.end").bind fun meeting last _ meets =>
    (makes_matchSteps lowers meets).bind fun _ _ _ made => makes_finish made.1

theorem values_conditional {cond : ExprCode} {routine : Bool}
    (tests : piece.Lowers routine cond) {thenBlock : BlockCode} {first : Bool}
    (thens : piece.Values first thenBlock) {otherwise : Option ExprCode}
    (elses : ∀ code ∈ otherwise, ∃ routine, piece.Lowers routine code) :
    piece.Values false (conditionalValue cond thenBlock otherwise) := by
  intro due start want
  refine (Makes.newBlock _).andThen fun yes => (Makes.newBlock _).andThen fun no => ?_
  refine (makes_start "if.end").bind fun meeting mid _ meets => ?_
  refine (tests.branch due mid yes no).seq <| (Makes.enter yes).seq ?_
  refine (thens due mid want).bind fun value last leads _ => ?_
  refine (makes_add (meets.of_leads leads)).bind fun meeting _ _ meets => ?_
  refine (Makes.enter no).seq ?_
  cases otherwise with
  | some code =>
    obtain ⟨routine, lowers⟩ := elses code rfl
    refine (lowers.value due _ _).bind fun value _ leads _ => ?_
    exact (makes_add (meets.of_leads leads)).bind fun _ _ _ meets => makes_finish meets
  | none => exact (makes_add meets).bind fun _ _ _ meets => makes_finish meets

end Piece

end Backend65816
