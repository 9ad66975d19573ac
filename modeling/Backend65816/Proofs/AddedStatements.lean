import Backend65816.Proofs.AddedOperations
import Backend65816.Proofs.FunctionMeaning

/-!
# Code of statements and functions

Statements declare names and leave loops. By induction over the tree, everything that the code of a
function adds is permitted.
-/

namespace Backend65816

open Lower Draft List

variable {action : Action} {block : BasicBlock} {body thenBlock : BlockCode} {first : Bool}
  {last : ExprCode} {codes : List ExprCode} {otherwise : Option (BlockId → Lower Unit)}
  {sig : Signature} {ctx : UnitContext} {what : String} {draft : Draft}

namespace Piece

variable {piece : Piece} {due : List String} {start : Draft}

variable {names : List String} {name label counter : String} {type : Ty} {addr : Option Int}
  {width : Width} {init : Option ExprCode} {cond : ExprCode} {routine inclusive : Bool}

abbrev Executes (piece : Piece) (steps : Lower Unit) : Prop :=
  ∀ pending start, piece.Lays pending start steps

abbrev LowersSome (piece : Piece) (code : Option ExprCode) : Prop :=
  ∀ found ∈ code, ∃ routine, piece.Lowers routine found

/-! ## Declarations -/

theorem makes_bindSeveral {results : Lower (List TypedReg)}
    (makes : piece.MakesValues due start results) :
    piece.Lays due start (bindSeveral names results) := by
  refine makes.andThen fun vals => .guard nofun <| .forM fun ⟨name, value⟩ _ => ?_
  simp only [newTemp, bind_assoc]
  exact .reads (.widthOf value.type) fun _ => ⟨fun _ _ _ built => ⟨fun _ _ => rfl,
    (built.addLocal rfl rfl rfl _).imp_right fun leads => ⟨leads, trivial⟩⟩⟩

theorem makes_initialValue (lowers : piece.LowersSome init) :
    piece.Lays due start (initialValue name type init) := by
  cases init with
  | none => exact .done
  | some code =>
    obtain ⟨routine, lowers⟩ := lowers code rfl
    refine (lowers.value due start type).andThen fun value => .guard nofun ?_
    exact .ite (fun _ => .done) fun _ => .guard nofun <| .done

theorem makes_bindOne (lowers : piece.LowersSome init) :
    piece.Lays due start (bindOne name type init addr) := by
  refine (makes_initialValue lowers).andThen fun value => .guard nofun <|
    .reads (.widthOf value.type) fun width => ⟨fun _ _ _ built => .step (fun _ => rfl) ?_⟩
  dsimp only
  split
  · exact ⟨fun _ _ => rfl, (built.addLocal rfl rfl rfl _).imp_right fun leads => ⟨leads, trivial⟩⟩
  · obtain ⟨added, leads, temp⟩ := built.addReg _
    exact ⟨fun _ _ => rfl, (built.declare added leads temp le_rfl name).imp_right
      fun leads => ⟨leads, trivial⟩⟩

theorem executes_bind (lowers : piece.LowersSome init) :
    piece.Executes (Lower.bind names type init addr) := by
  intro due start
  unfold Lower.bind
  split
  · exact .throw (.inl trivial)
  · exact makes_bindOne lowers
  · refine makes_bindSeveral ?_
    cases init with
    | none => exact .fail nofun
    | some code =>
      obtain ⟨routine, lowers⟩ := lowers code rfl
      exact lowers.results due start

/-! ## Conditionals and loops -/

section

variable (tests : piece.Lowers routine cond) (thens : piece.Values first thenBlock)
  (elses : ∀ side ∈ otherwise, ∀ block, piece.Executes (side block))
include tests thens elses

theorem executes_conditionalWays {yes after : BlockId} :
    piece.Executes (conditionalWays cond thenBlock otherwise yes after) := by
  intro due start
  cases otherwise with
  | none =>
    exact (tests.branch due start yes after).seq <| (Makes.enter yes).seq <|
      (thens due start _).seq <| .jump _
  | some side =>
    refine (Makes.newBlock _).andThen fun no => (tests.branch due start yes no).seq <|
      (Makes.enter yes).seq <| (thens due start _).seq ?_
    exact (Makes.jump _).seq <| (Makes.enter no).seq <|
      elses side rfl after due start

theorem executes_conditional : piece.Executes (conditional cond thenBlock otherwise) :=
  fun due start => (Makes.newBlock _).andThen fun _ => (Makes.newBlock _).andThen fun _ =>
    (executes_conditionalWays tests thens elses due start).andThen fun _ => .enter _

end

theorem values_loop (bodies : piece.Values routine body) :
    piece.Values false (loop label body) := by
  intro due start want
  refine (Makes.newBlock _).andThen fun head => (Makes.newBlock _).bind fun exit mid _ free => ?_
  refine (Makes.jump _).seq <| (Makes.enter head).seq ?_
  refine (Makes.inLoop rfl free fun inner => (bodies due inner _).seq <|
    .done).bind fun left last _ gives => ?_
  refine (Makes.jump _).seq <| (Makes.enter exit).seq ?_
  refine .guard nofun <| .ite (fun _ => .pure fun leads built => ?_) fun _ =>
    .ite (fun _ => .pure fun _ built => .nothing built.sound rfl) fun _ =>
      Makes.markUnreached.seq <| .pure fun _ built => .nothing built.sound rfl
  cases known : left.result with
  | none => exact .nothing built.sound rfl
  | some reg => exact (gives reg known).of_leads leads

theorem executes_whileLoop (tests : piece.Lowers routine cond) (bodies : piece.Values first body) :
    piece.Executes (whileLoop label cond body) := by
  intro due start
  refine (Makes.newBlock _).andThen fun head => (Makes.newBlock _).andThen fun inside =>
    (Makes.newBlock _).bind fun exit mid _ free => ?_
  refine (Makes.jump _).seq <| (Makes.enter head).seq <|
    (tests.branch due mid inside exit).seq <| (Makes.enter inside).seq ?_
  refine (Makes.inLoop rfl free fun inner => (bodies due inner _).seq <|
    .done).andThen fun left => ?_
  exact (Makes.jump _).seq <| .enter exit

theorem reads_checkBound {bound : TypedReg} {place : String} :
    Lower.Reads false (checkBound bound counter place type) := .ite (.fail nofun) (.pure _)

theorem makes_upperBound (lowers : piece.Lowers routine last) :
    piece.Lays due start (upperBound counter type width last) := by
  unfold upperBound
  split
  · exact .reads (.checkLiteral ..) fun _ => .done
  · refine (lowers.value due start type).andThen fun bound => .reads reads_checkBound fun _ => ?_
    exact .define rfl rfl fun _ _ _ _ => .done

theorem makes_nextValue {counter : VReg} (owns : piece.Owns counter) {last : Value}
    {body exit : BlockId} : piece.Lays due start (nextValue inclusive counter last body exit) := by
  have step {start : Draft} : piece.Lays due start (stepCounter counter) :=
    .emit (permits_of_owns owns rfl rfl)
  refine .ite (fun _ => ?_) fun _ => step.andThen fun _ => makes_branchOn ..
  exact (Makes.newBlock _).andThen fun _ => (makes_branchOn ..).andThen fun _ =>
    (Makes.enter _).andThen fun _ => step.andThen fun _ => .jump _

theorem newReg_hinted {α : Type} (name : String) (width : Width) (signed : Bool)
    (hint : Surroundings → Reg) (next : VReg → Lower α) :
    (newReg name width signed >>= fun reg => read >>= fun around =>
      modify (Draft.setHint · reg (hint around)) >>= fun _ => next reg) =
    (read >>= fun around =>
      newRegWith { name, width, signed, hint := some (hint around) } >>= next) := by
  funext around draft
  rw [newReg_bind, read_bind, modify_bind, setHint_addReg]
  rfl

theorem makes_countThrough {first : TypedReg} {last : Value} (bodies : piece.Values routine body) :
    piece.Lays due start (countThrough label counter type width first last inclusive body) := by
  unfold countThrough
  dsimp only
  rw [newReg_hinted]
  refine .read rfl fun _ => .declare rfl rfl rfl fun reg _ _ owns => ?_
  refine (Makes.newBlock _).andThen fun inside => (Makes.newBlock _).andThen fun next =>
    (Makes.newBlock _).bind fun exit mid _ free => ?_
  refine (makes_branchOn ..).andThen fun _ => (Makes.enter inside).andThen fun _ => ?_
  refine (Makes.inRange (Makes.inLoop rfl free fun inner => (bodies due inner _).andThen fun _ =>
    .done)).andThen fun left => ?_
  exact (Makes.jump _).andThen fun _ => (Makes.enter next).andThen fun _ =>
    (makes_nextValue owns).andThen fun _ => .enter exit

theorem executes_forLoop {first : ExprCode} {routine' : Bool} (firsts : piece.Lowers routine first)
    (lasts : piece.Lowers routine' last) {third : Bool} (bodies : piece.Values third body) :
    piece.Executes (forLoop label counter type first last inclusive body) := by
  intro due start
  refine .reads (.widthOf type) fun width => .guard nofun ?_
  refine (Makes.whilePending (firsts.value _ start type)).andThen fun begin =>
    (makes_upperBound lasts).andThen fun bound =>
      .reads reads_checkBound fun _ => .inScope ?_ fun _ _ => trivial
  exact makes_countThrough bodies

/-! ## Exits -/

theorem ends_targetLoop (around : Surroundings) (draft : Draft) :
    (targetLoop label what).Ends around draft
      (fun loop after => after = draft ∧ draft.findLoop? label = some loop) (·.Plain) := by
  refine .step (fun _ => rfl) ?_
  split
  · next found => exact .pure ⟨rfl, found⟩
  · split <;> exact ⟨fun _ _ => rfl, nofun⟩

theorem reads_targetLoop : Lower.Reads false (targetLoop label what) :=
  ⟨fun around draft => (ends_targetLoop around draft).imp And.left .inr⟩

theorem ends_loopResult {loop : EnclosingLoop} {value : TypedReg} {depth : Nat}
    (mem : loop ∈ draft.loops) (built : piece.Built draft) :
    (loopResult loop value).Ends (piece.around due depth) draft
      (fun reg after => piece.Built after ∧ draft.Leads after ∧ piece.Owns reg)
      piece.MayFail := by
  unfold loopResult
  split
  · next reg known =>
    split
    · exact .pure ⟨built, .refl draft, built.owns_of_mutable (.inl ⟨loop, mem, known⟩)⟩
    · exact ⟨fun _ _ => rfl, .inl nofun⟩
  · next empty =>
    split
    · exact ⟨fun _ _ => rfl, .inl nofun⟩
    simp only [newTemp, bind_assoc]
    refine (((Reads.widthOf _).ends _ draft).imp id fun fails =>
      .inl (fails.resolve_left nofun)).bind fun {width _} same => ?_
    cases same
    obtain ⟨added, leads, temp⟩ :=
      built.addReg { name := "loop", width, signed := value.type.isSigned }
    obtain ⟨changed, leads⟩ := built.modifyResult added leads temp le_rfl
      fun other other_mem same =>
        (eq_of_exit_eq built.sound.exits other_mem mem same).symm ▸ empty
    exact ⟨fun _ _ => rfl, changed, leads, .inl temp.new⟩

theorem executes_leave {value : Option ExprCode}
    (lowers : piece.LowersSome value) : piece.Executes (leave label value) := by
  intro due start
  refine .reads reads_targetLoop fun loop => ?_
  cases value with
  | none =>
    refine (Makes.modify fun _ built => ?_).seq <| .jump _
    exact built.modifyFlags loop.exit (fun loop => ⟨rfl, rfl, rfl, fun known => ⟨known, rfl⟩,
      id, fun _ => rfl⟩) (fun _ => rfl) fun _ => rfl
  | some code =>
    obtain ⟨routine, lowers⟩ := lowers code rfl
    refine .guard nofun <| Makes.andThen (.modify fun _ built => ?_) fun _ => ?_
    · exact built.modifyFlags loop.exit (fun loop => ⟨rfl, rfl, rfl, fun known => ⟨known, rfl⟩,
        fun _ => rfl, id⟩) (fun _ => rfl) fun _ => rfl
    · refine (lowers.value due start _).andThen fun value => ?_
      refine .ite (fun _ => .done) fun _ => .guard nofun ⟨fun depth draft leads built => ?_⟩
      refine ((ends_targetLoop _ draft).imp id .inl).bind fun {loop _} ⟨same, found⟩ => ?_
      cases same
      refine (ends_loopResult (mem_of_findLoop? found) built).bind fun ⟨built, leads, owns⟩ => ?_
      exact ((Makes.emit (permits_of_owns owns rfl rfl)).seq (.jump _)).resume built leads

theorem executes_proceed : piece.Executes (proceed label) :=
  fun _ _ => .reads reads_targetLoop fun _ => .jump _

theorem makes_returnOperands {slots : List ReturnSlot} (lowers : piece.LowersAll codes) :
    piece.Lays due start (returnOperands slots codes) := by
  induction codes generalizing slots with
  | nil => exact .done
  | cons code rest ih =>
    obtain ⟨⟨routine, first⟩, others⟩ := forall_mem_cons.mp lowers
    refine (Makes.whilePending (first.value _ start _)).andThen fun value => ?_
    exact .ite (fun _ => .done) fun _ => (ih others).andThen fun _ =>
      .done

theorem executes_giveBack (lowers : piece.LowersAll codes) : piece.Executes (giveBack codes) := by
  intro due start
  refine .read rfl fun _ => (makes_returnOperands lowers).andThen fun found => ?_
  cases found with
  | none => exact .done
  | some vals => exact makes_returnValues vals

theorem values_block {statements : Lower Unit} (executes : piece.Executes statements)
    {tail : Option ExprCode} (tails : ∀ code ∈ tail, piece.Lowers routine code) :
    piece.Values routine (Lower.block statements tail) := by
  intro due start want
  refine .inScope ((executes due start).seq ?_) fun leads gives => gives.of_leads leads
  cases tail with
  | some code => exact (tails code rfl).value due start want
  | none =>
    exact .reads .isDead fun _ => .ite (fun _ => .pure fun _ built => .nothing built.sound rfl)
      fun _ => .pure fun _ built => .nothing built.sound rfl

end Piece

/-! ## Trees -/

theorem subset_parts {node : SyntaxNode} {first second third nodes : List SyntaxNode}
    (subset : node :: (first ++ second ++ third) ⊆ nodes) :
    first ⊆ nodes ∧ second ⊆ nodes ∧ third ⊆ nodes := by
  simp_all

mutual

def Expr.viaRoutine : Expr → Bool
  | .binary operator left right => operator.callsRoutine left right
  | .block body => body.viaRoutine
  | _ => false

def Block.viaRoutine : Block → Bool
  | .mk _ tail => viaRoutineOption tail

/-- The value of an expression that may be absent is left by a routine. -/
def viaRoutineOption : Option Expr → Bool
  | none => false
  | some expression => expression.viaRoutine

end

section Trees

open Piece

variable (piece : Piece)

mutual

theorem Expr.lowers (expr : Expr) (subset : expr.nodes ⊆ piece.nodes) :
    piece.Lowers expr.viaRoutine expr.code := by
  match expr with
  | .int num type => exact lowers_int num type
  | .bool truth => exact lowers_bool truth
  | .name name => exact lowers_name name
  | .variant enum variant => exact lowers_variant enum variant
  | .binary operator left right =>
    obtain ⟨subset, subset'⟩ := append_subset.mp (cons_subset.mp subset).2
    have lowers := lowers_binary operator (left.lowers subset) (right.lowers subset')
    rw [left.code_source, right.code_source] at lowers
    exact lowers
  | .unary operator operand =>
    exact lowers_unary operator (operand.lowers (cons_subset.mp subset).2)
  | .call fn args =>
    obtain ⟨listed, subset⟩ := cons_subset.mp subset
    exact lowers_ofResults _ fun _ _ => makes_callFunction listed (lowersExprs args subset)
  | .method receiver traitName method args =>
    obtain ⟨listed, subset⟩ := cons_subset.mp subset
    obtain ⟨subset, subset'⟩ := append_subset.mp subset
    exact lowers_ofResults _ fun _ _ => makes_callTraitMethod listed
      (receiver.lowers subset) (lowersExprs args subset')
  | .field object field =>
    exact lowers_field (object.lowers (cons_subset.mp subset).2) field
  | .conditional cond thenBlock otherwise =>
    obtain ⟨first, second, third⟩ := subset_parts subset
    exact lowers_ofValue _ (values_conditional (cond.lowers first)
      (thenBlock.values second) (lowersOption otherwise third))
  | .block body => exact lowers_ofValue _ (body.values (cons_subset.mp subset).2)
  | .loop label body =>
    exact lowers_ofValue _ (values_loop (body.values (cons_subset.mp subset).2))
  | .select scrutinee arms =>
    obtain ⟨subset, subset'⟩ := append_subset.mp (cons_subset.mp subset).2
    exact lowers_ofValue _ (values_select (scrutinee.lowers subset) (lowersArms arms subset'))
  | .cast operand type =>
    exact lowers_cast (operand.lowers (cons_subset.mp subset).2)
  | .isType object typeName =>
    exact lowers_isType (object.lowers (cons_subset.mp subset).2)
  | .tagOf object => exact lowers_tagOf (object.lowers (cons_subset.mp subset).2)

theorem lowersExprs (expressions : List Expr) (subset : nodesOfExprs expressions ⊆ piece.nodes) :
    piece.LowersAll (codeOfExprs expressions) := by
  match expressions with
  | [] => exact fun _ mem => nomatch mem
  | expr :: rest =>
    obtain ⟨subset, subset'⟩ := append_subset.mp subset
    exact forall_mem_cons.mpr ⟨⟨_, expr.lowers subset⟩, lowersExprs rest subset'⟩

theorem lowersOption (found : Option Expr) (subset : nodesOfOption found ⊆ piece.nodes) :
    piece.LowersSome (codeOfOption found) := by
  match found with
  | none => exact nofun
  | some expr =>
    intro code mem
    cases mem
    exact ⟨_, expr.lowers subset⟩

theorem lowersArms (arms : List Arm)
    (subset : nodesOfArms arms ⊆ piece.nodes) : piece.LowersArms (codeOfArms arms) := by
  match arms with
  | [] => exact fun _ mem => nomatch mem
  | .mk pattern body :: rest =>
    obtain ⟨subset, subset'⟩ := append_subset.mp subset
    exact forall_mem_cons.mpr ⟨⟨_, body.lowers subset⟩, lowersArms rest subset'⟩

theorem Stmt.executesIn (statement : Stmt) (subset : statement.nodes ⊆ piece.nodes) :
    piece.Executes statement.code := by
  match statement with
  | .block body =>
    exact fun due start => (body.values subset due start _).seq <| .done
  | .bind names type init addr =>
    exact Piece.executes_bind (lowersOption init (cons_subset.mp subset).2)
  | .assign target value =>
    obtain ⟨first, second⟩ := append_subset.mp (cons_subset.mp subset).2
    intro due start
    refine (target.lowers first).assign due start _ _ (fun name same => ?_)
      fun start want => ((value.lowers second).value due start want).imp fun _ _ => trivial
    rw [target.code_source] at same
    subst same
    exact mem_filterMap.mpr ⟨_, subset (.head _), rfl⟩
  | .expr expr =>
    exact fun due start => ((expr.lowers (cons_subset.mp subset).2).value due start _).seq .done
  | .conditional cond thenBlock otherwise =>
    obtain ⟨first, second, third⟩ := subset_parts subset
    exact Piece.executes_conditional (cond.lowers first) (thenBlock.values second)
      (otherwise.executesIn third)
  | .loop label body =>
    exact fun due start => (values_loop (body.values (cons_subset.mp subset).2) due start _).seq .done
  | .whileLoop label cond body =>
    obtain ⟨first, second⟩ := append_subset.mp (cons_subset.mp subset).2
    exact executes_whileLoop (cond.lowers first) (body.values second)
  | .forLoop label counter type low high inclusive body =>
    obtain ⟨first, second, third⟩ := subset_parts subset
    exact executes_forLoop (low.lowers first) (high.lowers second) (body.values third)
  | .leave label value =>
    exact Piece.executes_leave (lowersOption value (cons_subset.mp subset).2)
  | .proceed label => exact Piece.executes_proceed
  | .giveBack vals =>
    exact Piece.executes_giveBack (lowersExprs vals (cons_subset.mp subset).2)

theorem Otherwise.executesIn (otherwise : Otherwise) (subset : otherwise.nodes ⊆ piece.nodes) :
    ∀ side ∈ otherwise.code, ∀ block, piece.Executes (side block) := by
  match otherwise with
  | .nothing => exact nofun
  | .block body =>
    intro side mem block due start
    cases mem
    exact (body.values subset due start _).seq <| .jump _
  | .conditional cond thenBlock rest =>
    obtain ⟨first, second, third⟩ := subset_parts subset
    intro side mem block due start
    cases mem
    exact (Makes.newBlock _).andThen fun yes => executes_conditionalWays
      (cond.lowers first) (thenBlock.values second)
      (rest.executesIn third) due start

theorem executesAllIn (statements : List Stmt) (subset : nodesOfStmts statements ⊆ piece.nodes) :
    piece.Executes (codeOfStmts statements) := by
  match statements with
  | [] => exact fun _ _ => .done
  | statement :: rest =>
    obtain ⟨subset, subset'⟩ := append_subset.mp subset
    exact fun due start => (statement.executesIn subset due start).seq <|
      executesAllIn rest subset' due start

theorem Block.values (body : Block) (subset : body.nodes ⊆ piece.nodes) :
    piece.Values body.viaRoutine body.code := by
  match body with
  | .mk statements tail =>
    obtain ⟨subset, subset'⟩ := append_subset.mp (cons_subset.mp subset).2
    refine values_block (executesAllIn statements subset) fun code mem => ?_
    match tail with
    | none => cases mem
    | some expr =>
      cases mem
      exact expr.lowers subset'

end

end Trees

/-! ## Functions -/

namespace Piece

variable {piece : Piece} {due : List String} {start : Draft}

theorem makes_enterParam (param : ParamSlot) :
    piece.Makes due start (enterParam param) fun _ entry =>
      ∀ reg ∈ entry.registers, piece.Owns reg where
  ends depth draft leads built := by
    refine .run (fun around => enterParam_run around draft param) ?_
    obtain ⟨added, added_leads, temp⟩ := built.addReg param.fixedInfo
    unfold Draft.bindParam Draft.addParam ParamEntry.own ParamEntry.registers Draft.paramEntry
    cases copied : param.copyInfo? with
    | none =>
      obtain ⟨declared, leads⟩ := built.declare added added_leads temp le_rfl param.name
      exact ⟨declared, leads, forall_mem_singleton.mpr (.inl temp.new)⟩
    | some info =>
      obtain ⟨copy, copy_leads, copy_temp⟩ := added.addReg info
      have signed : info.signed = param.type.isSigned := by
        have own := param.ownInfo_signed
        rwa [ParamSlot.ownInfo, copied] at own
      rw [signed, addReg_size] at copy_temp
      obtain ⟨declared, leads⟩ := built.declare copy (added_leads.trans copy_leads) copy_temp
        (Nat.le_succ _) param.name
      exact ⟨declared, leads, forall_mem_cons.mpr
        ⟨.inl temp.new, forall_mem_singleton.mpr (.inl copy_temp.new)⟩⟩

theorem executes_enterParams : piece.Executes enterParams := by
  intro due start
  refine .read rfl fun _ => (Makes.mapM (fun _ (entry : ParamEntry) =>
    ∀ reg ∈ entry.registers, piece.Owns reg) (fun param _ => makes_enterParam param)
    fun _ owns => owns).bind fun entries mid _ owns => ?_
  refine .ite (fun _ => (Makes.emit ⟨.plain rfl, fun reg mem => ?_⟩).seq <|
    .forM fun entry mem => ?_) fun _ => .forM fun entry mem => ?_
  · obtain ⟨entry, entry_mem, rfl⟩ := mem_map.mp mem
    exact owns entry entry_mem _ (.head _)
  all_goals
    split
    · next copy copied =>
      have mem := mem_fillOrder.mp (mem_reverse.mp mem)
      have registered : copy ∈ entry.registers := by
        grind [ParamEntry.registers]
      exact .emit (permits_of_owns (owns entry mem copy registered) rfl rfl)
    · exact .done

theorem executes_fallOff (tail : TypedReg) (whole : piece.whole = true) :
    piece.Executes (fallOff tail) := by
  intro due start
  have closes : piece.Lays due start (terminate (.giveBack [])) :=
    .modify fun _ built => built.terminate fun _ _ => .inl whole
  have unreached {code : DiagnosticCode} {message : String} (plain : code.kind ≠ .convention) :
      piece.Lays due start (endUnreached code message) :=
    .reads (.bind .get fun _ => .pure _) fun _ => .guard plain closes
  exact .read rfl fun _ => .ite (fun _ => unreached nofun) fun _ =>
    .ite (fun _ => makes_returnValues [tail]) fun _ =>
    .ite (fun _ => unreached nofun) fun _ => closes

theorem executes_function (body : Block) (subset : body.nodes ⊆ piece.nodes)
    (whole : piece.whole = true) : piece.Executes (function body) := by
  intro due start
  refine (executes_enterParams due start).seq <| .read rfl fun _ => ?_
  refine (body.values piece subset due start _).andThen fun tail => .reads .isDead fun _ => ?_
  exact .ite (fun _ => executes_fallOff tail whole due start) fun _ => .done

end Piece

theorem Draft.emits_of_finish {name : String} {mode : Mode}
    (block_mem : block ∈ (draft.finish name mode).blocks)
    (mem : action ∈ block.actions) : ({} : Draft).Emits draft action := by
  rw [mem_toArray] at block_mem
  obtain ⟨id, _, rfl⟩ := mem_map.mp block_mem
  obtain ⟨pos, found⟩ := List.mem_iff_getElem?.mp mem
  have fresh : ({} : Draft).actionAt? id pos = none := by
    cases id <;> rfl
  refine ⟨id, pos, ?_, fresh⟩
  change (draft.blocks.getD id {}).actions[pos]? = some action at found
  rw [Array.getD_eq_getD_getElem?] at found
  grind [actionAt?]

theorem UnitContext.lower_allows {body : Block} {graph : Graph}
    (ran : ctx.lower sig body = .ok graph) (block_mem : block ∈ graph.blocks)
    (mem : action ∈ block.actions) : ctx.Allows sig graph.vregs action := by
  obtain ⟨draft, made, rfl⟩ := UnitContext.lower_ok ran
  let piece : Piece := ⟨ctx, sig, body.nodes, {}, true⟩
  have makes := piece.executes_function body (.refl _) rfl [] {}
  obtain ⟨built, _⟩ := makes.made (.refl {}) (.start (wellFormed_empty signs)) made
  exact (built.emitted (emits_of_finish block_mem mem)).1

theorem UnitContext.Allows.exists_through {vregs : Array VRegInfo} {details : TableCall}
    (allowed : ctx.Allows sig vregs (.dispatch details)) :
    ∃ table, details.Through ctx sig vregs table := by
  cases allowed with
  | plain quiet => cases quiet
  | global found reached => cases reached
  | table through => exact ⟨_, through⟩

end Backend65816
