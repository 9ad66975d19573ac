import Backend65816.Proofs.AddedStatements

/-!
# Order of evaluation

Operands are lowered in turn, and each keeps its value while the later ones are computed: no code of
a later operand defines the register of an earlier one. The code of an expression defines the
registers of those names in scope only that the expression stores to.
-/

namespace Backend65816

open List

variable {after draft : Draft} {names : List String} {piece : Piece}

def Draft.Defines (before after : Draft) (register : VReg) : Prop :=
  ∃ action, before.Emits after action ∧ register ∈ action.defs

/-- Operands are lowered in turn at the types wanted of them, up to one that does not complete, each
while the names to which the later ones store are pending. No code of the later operands defines the
register of an earlier one. -/
inductive InTurn (around : Surroundings) :
    Draft → List Expr → List Ty → List TypedReg → Draft → Prop where
  | none (draft : Draft) : InTurn around draft [] [] [] draft
  | stop {draft after : Draft} {operand : Expr} {rest : List Expr} {value : TypedReg} {want : Ty}
      {names : List String}
      (lowered : Lower.whilePending names (operand.code.value want) around draft =
        .ok (value, after))
      (diverges : value.diverges = true) :
      InTurn around draft (operand :: rest) [want] [value] after
  | next {draft middle after : Draft} {operand : Expr} {rest : List Expr} {value : TypedReg}
      {values : List TypedReg} {want : Ty} {wants : List Ty} {names : List String}
      (lowered : Lower.whilePending names (operand.code.value want) around draft =
        .ok (value, middle))
      (guards : storedIn (nodesOfExprs rest) ⊆ names)
      (later : InTurn around middle rest wants values after)
      (kept : ¬middle.Defines after value.register) :
      InTurn around draft (operand :: rest) (want :: wants) (value :: values) after

/-- Steps that start with operands, which are lowered in turn, and go on with the rest that belongs
to their values and to the types that were wanted. -/
def Lower.Protects {α : Type} (steps : Lower α) (around : Surroundings) (operands : List Expr)
    (goesOn : List TypedReg → List Ty → Lower α → Prop) : Prop :=
  ∀ ⦃draft : Draft⦄ ⦃result : α⦄ ⦃after : Draft⦄, draft.Sound →
    steps around draft = .ok (result, after) →
    ∃ wants values middle rest, InTurn around draft operands wants values middle ∧
      goesOn values wants rest ∧ rest around middle = .ok (result, after)

/-- Steps whose code defines the registers of those names in scope only that are listed. -/
def Lower.Spares {α : Type} (steps : Lower α) (names : List String) : Prop :=
  ∀ ⦃around : Surroundings⦄ ⦃draft : Draft⦄ ⦃result : α⦄ ⦃after : Draft⦄, draft.Sound →
    steps around draft = .ok (result, after) →
    after.Sound ∧ ∀ entry ∈ draft.scopes.flatten, entry.1 ∉ names →
      ¬draft.Defines after entry.2.register

/-! ## Code that keeps registers -/

theorem Piece.Built.not_defines (built : piece.Built after)
    {reg : VReg} (known : reg < piece.base.vregs.size)
    (lasting : ¬piece.base.Mutable piece.names reg) : ¬piece.base.Defines after reg := by
  rintro ⟨action, emits, mem⟩
  rcases (built.emitted emits).2 reg mem with new | changes
  all_goals grind

theorem Lower.spares_of_makes {α : Type} {steps : Lower α} {nodes : List SyntaxNode}
    (makes : ∀ ctx sig base due, ∃ post : Draft → α → Prop,
      Piece.Makes { context := ctx, signature := sig, nodes, base } due base steps post) :
    steps.Spares (storedIn nodes) := by
  intro around draft res after sound ran
  obtain ⟨post, makes⟩ := makes around.context around.signature draft around.pending
  obtain ⟨built, _⟩ := makes.made (.refl draft) (.start sound) ran
  refine ⟨built.sound, fun entry mem kept => ?_⟩
  obtain ⟨scope, scope_mem, entry_mem⟩ := mem_flatten.mp mem
  refine built.not_defines (sound.lt_of_mem_owned ?_)
    (Draft.WellFormed.not_mutable_of_mem sound scope_mem entry_mem kept)
  exact mem_append_left _ (mem_map_of_mem mem)

/-- The code of operands in turn is code of a piece that may store to what they store to. -/
theorem InTurn.builds {pending : List String} {depth : Nat} {operands : List Expr}
    {wants : List Ty} {values : List TypedReg}
    (inTurn : InTurn ⟨piece.context, piece.signature, pending, depth⟩ draft operands wants values
      after)
    (subset : nodesOfExprs operands ⊆ piece.nodes) (built : piece.Built draft) :
    piece.Built after := by
  induction inTurn with
  | none => exact built
  | stop ran =>
    exact (((Expr.lowers piece _ (append_subset.mp subset).1).value _ _ _).made (.refl _) built ran).1
  | next ran _ _ _ ih =>
    obtain ⟨first, others⟩ := append_subset.mp subset
    exact ih others (((Expr.lowers piece _ first).value _ _ _).made (.refl _) built ran).1

namespace Lower

variable {α β : Type} {steps : Lower α} {next : α → Lower β} {operands : List Expr} {calls : Bool}

theorem whilePending_bind (names : List String) : whilePending names (steps >>= next) =
    whilePending names steps >>= fun value => whilePending names (next value) := rfl

theorem Reads.whilePending (quiet : Reads false steps) :
    Reads false (whilePending names steps) where
  ends around draft :=
    have ends := quiet.ends { around with pending := names ++ around.pending } draft
    ⟨ends.blind, ends.outcome⟩

/-! ## Steps that protect operands -/

namespace Protects

variable {around : Surroundings} {goesOn : List TypedReg → List Ty → Lower α → Prop}
  {goesOn' : List TypedReg → List Ty → Lower β → Prop}

theorem nothing (on : goesOn [] [] steps) : steps.Protects around [] goesOn :=
  fun draft _ _ _ ran => ⟨[], [], draft, steps, .none draft, on, ran⟩

theorem fail {code : DiagnosticCode} {message : String} :
    (fail code message : Lower α).Protects around operands goesOn :=
  fun _ _ _ _ ran => absurd ran fail_ne

theorem ite {cond : Prop} [Decidable cond] {yes no : Lower α}
    (first : cond → yes.Protects around operands goesOn)
    (second : ¬cond → no.Protects around operands goesOn) :
    (if cond then yes else no).Protects around operands goesOn := by
  grind

theorem andThen (protects : steps.Protects around operands goesOn)
    (on : ∀ {values wants rest}, goesOn values wants rest → goesOn' values wants (rest >>= next)) :
    (steps >>= next).Protects around operands goesOn' := by
  intro draft res after sound ran
  obtain ⟨value, mid, first, second⟩ := bind_ok.mp ran
  obtain ⟨wants, vals, last, rest, inTurn, goes, ran⟩ := protects sound first
  exact ⟨wants, vals, last, rest >>= next, inTurn, on goes, bind_ok.mpr ⟨value, mid, ran, second⟩⟩

theorem reads (quiet : Reads calls steps)
    (protects : ∀ value draft, steps around draft = .ok (value, draft) →
      (next value).Protects around operands goesOn') :
    (steps >>= next).Protects around operands goesOn' := by
  intro draft res after sound ran
  obtain ⟨value, mid, first, second⟩ := bind_ok.mp ran
  obtain rfl := quiet.same first
  exact protects value _ first sound second

theorem read {next : Surroundings → Lower β}
    (protects : (next around).Protects around operands goesOn') :
    (MonadReader.read >>= next).Protects around operands goesOn' :=
  fun _ _ _ sound ran => protects sound ran

variable {operand : Expr} {rest : List Expr} {want : Ty} {go : TypedReg → Lower β}

/-- An operand that is computed while the names to which the later ones store are pending. -/
theorem guarded (subset : storedIn (nodesOfExprs rest) ⊆ names)
    (late : ∀ value, (go value).Protects around rest
        (fun values wants => goesOn' (value :: values) (want :: wants)) ∨
      value.diverges = true ∧ goesOn' [value] [want] (go value)) :
    (whilePending names (operand.code.value want) >>= go).Protects around (operand :: rest)
      goesOn' := by
  intro draft res after sound ran
  obtain ⟨value, mid, first, second⟩ := bind_ok.mp ran
  rcases late value with protects | ⟨diverges, goes⟩
  · let whole : Piece := ⟨around.context, around.signature, operand.nodes, draft, false⟩
    obtain ⟨built, _, gives⟩ :=
      ((operand.lowers whole (.refl _)).value _ _ _).made (.refl draft) (.start sound) first
    obtain ⟨wants, vals, last, goal, inTurn, goes, ran⟩ := protects built.sound second
    let others : Piece := ⟨around.context, around.signature, nodesOfExprs rest, mid, false⟩
    have later : others.Built last := inTurn.builds (.refl _) (.start built.sound)
    have lasting := (gives.of_pending (subset_append_of_subset_left _ subset)).lasting
    exact ⟨want :: wants, value :: vals, last, goal,
      .next first subset inTurn (later.not_defines gives.known lasting), goes, ran⟩
  · exact ⟨[want], [value], mid, go value, .stop first diverges, goes, second⟩

theorem completing (names_eq : names = storedIn (nodesOfExprs rest)) {stop : TypedReg → Lower β}
    (halt : ∀ value, value.diverges = true → goesOn' [value] [want] (stop value))
    (late : ∀ value, value.diverges = false → (go value).Protects around rest
      fun values wants => goesOn' (value :: values) (want :: wants)) :
    (whilePending names (operand.code.value want) >>= fun value =>
      if value.diverges then stop value else go value).Protects around (operand :: rest)
      goesOn' := by
  refine guarded (names_eq ▸ List.Subset.refl _) fun value => ?_
  grind

theorem last (late : ∀ value, (go value).Protects around []
      fun values wants => goesOn' (value :: values) (want :: wants)) :
    (operand.code.value want >>= go).Protects around [operand] goesOn' :=
  (guarded (.refl _) fun value => .inl (late value) :
    (whilePending [] (operand.code.value want) >>= go).Protects around [operand] goesOn')

end Protects

/-! ## Operands of the language -/

/-- Operands of a binary operator that are computed before it. A literal is not. -/
def computed (left right : Expr) : List Expr :=
  if right.literal?.isSome then [left] else if left.literal?.isSome then [right] else [left, right]

/-- Two values are the operands of the operator if both complete, the second wanted at the type of
the first. -/
def PairsOperands (want : Ty) (values : List TypedReg) (wants : List Ty)
    (rest : Lower (Option Operands)) : Prop :=
  ∃ first ∈ values.head?, wants <+: [want, first.type] ∧
    ∀ second, values = [first, second] → second.diverges = false →
      rest = pure (some { left := first, right := .reg second.register })

theorem PairsOperands.alone {want : Ty} {value : TypedReg} {rest : Lower (Option Operands)} :
    PairsOperands want [value] [want] rest := ⟨value, rfl, by simp, by simp⟩

theorem protects_operands (around : Surroundings) (operator : BinaryOp) (left right : Expr)
    (want : Ty) :
    (Lower.operands operator left.code right.code want).Protects around (computed left right)
      (PairsOperands want) := by
  unfold Lower.operands computed
  rw [left.code_source, right.code_source]
  split
  · next found =>
    rw [found]
    exact .last fun _ => .nothing .alone
  · next missing found =>
    rw [found, missing]
    exact .last fun _ => .nothing .alone
  · next missing missing' =>
    rw [missing, missing']
    refine .completing (storedNames_codes [right]) (fun _ _ => .alone) fun first _ => ?_
    refine .last fun second => .ite (fun diverges => ?_) fun _ => .ite (fun _ => .fail) fun _ => ?_
    all_goals exact .nothing ⟨first, rfl, prefix_rfl, by grind⟩

theorem operands_literal {operator : BinaryOp} {left right : Expr} {want : Ty}
    {around : Surroundings} {found : Operands}
    (literal : left.literal?.isSome) (other : right.literal? = none)
    (ran : Lower.operands operator left.code right.code want around draft =
      .ok (some found, after)) :
    ∃ value mid, right.code.value want around draft = .ok (value, mid) ∧
      (found.left = value ∨ found.left.register = mid.vregs.size) := by
  obtain ⟨⟨num, type⟩, literal⟩ := Option.isSome_iff_exists.mp literal
  unfold Lower.operands at ran
  rw [left.code_source, right.code_source, other, literal] at ran
  obtain ⟨value, mid, first, ran⟩ := bind_ok.mp ran
  refine ⟨value, mid, first, ?_⟩
  split at ran
  · cases ran
  · split at ran
    · obtain ⟨operand, _, _, ran⟩ := bind_ok.mp ran
      cases ran
      exact .inl rfl
    · obtain ⟨_, _, checked, ran⟩ := bind_ok.mp ran
      obtain ⟨constant, _, made, ran⟩ := bind_ok.mp ran
      obtain ⟨rfl, _⟩ := checkLiteral_ok checked
      obtain ⟨_, _, rfl, rfl⟩ := constant_ok made
      split at ran
      · cases ran
      · cases ran
        exact .inr rfl

/-- Values that are wanted at some types and with which steps go on if all of them complete. -/
def OnceComplete (types : List Ty) (stopped : α) (go : List TypedReg → Lower α)
    (values : List TypedReg) (wants : List Ty) (rest : Lower α) : Prop :=
  wants <+: types ∧ rest = if values.any TypedReg.diverges then pure stopped else go values

namespace OnceComplete

variable {types wants : List Ty} {values : List TypedReg} {want : Ty} {value : TypedReg}
  {stopped : α} {go : List TypedReg → Lower α} {rest : Lower α}

theorem none_left : OnceComplete types stopped go [] [] (go []) := ⟨ nil_prefix, rfl⟩

theorem stop (diverges : value.diverges = true) :
    OnceComplete (want :: types) stopped go [value] [want] (pure stopped) := by
  simp [OnceComplete, diverges]

theorem cons (completes : value.diverges = false)
    (on : OnceComplete types stopped (fun values => go (value :: values)) values wants rest) :
    OnceComplete (want :: types) stopped go (value :: values) (want :: wants) rest := by
  simpa [OnceComplete, completes] using on

theorem bind {next : Option (List TypedReg) → Lower α} {rest : Lower (Option (List TypedReg))}
    (none_eq : next none = pure stopped) (some_eq : ∀ values, next (some values) = go values)
    (on : OnceComplete types none (fun values => pure (some values)) values wants rest) :
    OnceComplete types stopped go values wants (rest >>= next) := by
  obtain ⟨early, rfl⟩ := on
  refine ⟨early, ?_⟩
  split
  · exact none_eq
  · exact some_eq _

end OnceComplete

theorem protects_argumentValues {around : Surroundings} {callee : String} (params : List ParamSlot)
    (args : List Expr) (same : args.length = params.length) :
    (argumentValues callee params (codeOfExprs args)).Protects around args
      (OnceComplete (params.map ParamSlot.type) none fun values => pure (some values)) := by
  induction args generalizing params with
  | nil =>
    obtain rfl := eq_nil_of_length_eq_zero same.symm
    exact .nothing .none_left
  | cons argument rest ih =>
    obtain ⟨param, params, rfl⟩ := exists_cons_of_length_eq_add_one same.symm
    exact .completing (storedNames_codes rest) (fun _ => .stop) fun _ completes =>
      .ite (fun _ => .fail) fun _ => .andThen (ih params (Nat.succ.inj same)) fun on =>
        .cons completes (.bind rfl (fun _ => rfl) on)

theorem protects_passArguments {around : Surroundings} (callee : Signature)
    (params : List ParamSlot) (args : List Expr) :
    (passArguments callee params (codeOfExprs args)).Protects around args
      (OnceComplete (params.map ParamSlot.type) none fun values => pure (some values)) := by
  refine .ite (fun _ => .fail) fun same => protects_argumentValues params args ?_
  rw [← length_codeOfExprs, not_not.mp same]

/-- Values are the arguments of a call of a function. -/
def CallsFunction (around : Surroundings) (name : String) (values : List TypedReg)
    (wants : List Ty) (rest : Lower (List TypedReg)) : Prop :=
  ∃ callee, around.context.signatures.get? name = some callee ∧
    OnceComplete (callee.params.map ParamSlot.type) [] (callDirect callee) values wants rest

theorem protects_callFunction (around : Surroundings) (name : String) (args : List Expr) :
    (callFunction name (codeOfExprs args)).Protects around args (CallsFunction around name) := by
  refine .read ?_
  split
  · exact .fail
  · next callee found =>
    exact .ite (fun _ => .fail) fun _ => .reads (.check _) fun _ _ _ =>
      .andThen (protects_passArguments ..) fun on => ⟨callee, found, .bind rfl (fun _ => rfl) on⟩

/-- Values are the receiver and the arguments of a call of a method. -/
def CallsMethod (values : List TypedReg) (wants : List Ty) (rest : Lower (List TypedReg)) : Prop :=
  ∃ (callee : Signature) (make : List (Option VReg) → List VReg → Action),
    OnceComplete (.unspecified :: (callee.params.drop 1).map ParamSlot.type) []
      (fun values => callWith callee values make) values wants rest

theorem protects_callMethod {around : Surroundings} {callee : Signature} {receiver : TypedReg}
    {args : List Expr} (completes : receiver.diverges = false)
    {make : List TypedReg → Lower (List TypedReg)}
    {action : List (Option VReg) → List VReg → Action}
    (make_eq : make = fun values => callWith callee values action) :
    (callMethod callee receiver (codeOfExprs args) make).Protects around args
      fun values wants => CallsMethod (receiver :: values) (.unspecified :: wants) := by
  unfold callMethod
  split
  · exact fun _ _ _ _ ran => nomatch ran
  · next param params params_eq =>
    refine .andThen (protects_passArguments ..) fun on => ⟨callee, action, ?_⟩
    rw [params_eq]
    exact .cons completes (.bind rfl (fun _ => by rw [make_eq]) on)

theorem protects_callTraitMethod (around : Surroundings) (object : Expr)
    (traitName method : String) (args : List Expr) :
    (callTraitMethod object.code traitName method (codeOfExprs args)).Protects around
      (object :: args) CallsMethod := by
  refine .completing (storedNames_codes args)
    (fun _ diverges => ⟨default, fun _ _ => .params [], .stop diverges⟩) fun receiver completes =>
    .ite (fun _ => .fail) fun _ => .read ?_
  split
  · exact .fail
  · split
    · exact .fail
    · refine .ite (fun _ => .ite (fun _ => .fail) fun _ => .read ?_) fun _ => .read ?_
      · split
        · exact .fail
        · exact .reads (Piece.reads_tableConvention ..) fun _ _ _ =>
            .reads Piece.reads_checkEntries fun _ _ _ => protects_callMethod completes rfl
      · dsimp only
        split
        · exact .fail
        · exact .reads (.check _) fun _ _ _ => protects_callMethod completes rfl

/-- Types at which values are wanted that are given back. -/
def returnTypes (slots : List ReturnSlot) (values : List Expr) : List Ty :=
  slots.map ReturnSlot.type ++ replicate values.length .unspecified

theorem protects_returnOperands {around : Surroundings} (slots : List ReturnSlot)
    (vals : List Expr) :
    (returnOperands slots (codeOfExprs vals)).Protects around vals
      (OnceComplete (returnTypes slots vals) none fun values => pure (some values)) := by
  induction vals generalizing slots with
  | nil => exact .nothing .none_left
  | cons operand rest ih =>
    have types_eq : ∃ more, returnTypes slots (operand :: rest) =
        (slots.head?.map ReturnSlot.type).getD .unspecified :: (returnTypes (slots.drop 1) rest ++ more) := by
      cases slots with
      | nil => exact ⟨[], by simp [returnTypes, replicate_succ]⟩
      | cons slot slots => exact ⟨[.unspecified], by simp [returnTypes, replicate_succ']⟩
    obtain ⟨more, types_eq⟩ := types_eq
    rw [types_eq]
    exact .completing (storedNames_codes rest) (fun _ => .stop) fun _ completes =>
      .andThen (ih _) fun ⟨early, rest_eq⟩ => .cons completes
        (.bind rfl (fun _ => rfl) ⟨early.trans (prefix_append ..), rest_eq⟩)

theorem protects_giveBack (around : Surroundings) (vals : List Expr) :
    (giveBack (codeOfExprs vals)).Protects around vals
      (OnceComplete (returnTypes around.signature.returns vals) () returnValues) :=
  .read (.andThen (protects_returnOperands _ vals) fun on => .bind rfl (fun _ => rfl) on)

/-- Bounds of a range that are computed before the loop. A literal at its end is not. -/
def bounds (first last : Expr) : List Expr := if last.literal?.isSome then [first] else [first, last]

/-- A loop counts from the first value to the second, or to a literal. -/
def CountsThrough (label counter : String) (type : Ty) (inclusive : Bool) (body : BlockCode)
    (values : List TypedReg) (wants : List Ty) (rest : Lower Unit) : Prop :=
  wants <+: [type, type] ∧ ∃ start ∈ values.head?, ∃ (width : Width) (upper : Lower Value),
    (∀ last, values = [start, last] → upper = do
      checkBound last counter "ends" type
      let register ← newReg (counter ++ ".end") width type.isSigned
      emit (.move register last.register)
      return Value.reg register) ∧
    rest = do
      let bound ← upper
      checkBound start counter "starts" type
      inScope (countThrough label counter type width start bound inclusive body)

theorem protects_forLoop (around : Surroundings) (label counter : String) (type : Ty)
    (first last : Expr) (inclusive : Bool) (body : Block) :
    (forLoop label counter type first.code last.code inclusive body.code).Protects around
      (bounds first last) (CountsThrough label counter type inclusive body.code) := by
  refine .reads (.widthOf type) fun width _ _ => .ite (fun _ => .fail) fun _ => ?_
  unfold bounds upperBound
  rw [last.code_source]
  cases found : last.literal? with
  | none =>
    have names_eq := storedNames_codes [last]
    refine .guarded (names_eq ▸ List.Subset.refl _) fun start => .inl ?_
    rw [bind_assoc]
    exact .last fun value => .nothing ⟨prefix_rfl, start, rfl, width, _, by simp, rfl⟩
  | some literal =>
    exact .guarded (nil_subset _) fun start => .inl (.nothing
      ⟨by simp, start, rfl, width, _, by simp, rfl⟩)

/-- The second value is stored through the first one if it completes. -/
def StoresThrough (values : List TypedReg) (wants : List Ty) (rest : Lower Unit) : Prop :=
  ∃ pointer ∈ values.head?, ∃ slot : FieldSlot, wants <+: [.unspecified, slot.type] ∧
    ∀ content, values = [pointer, content] → content.diverges = false →
      rest = emit (.store (ExprCode.fieldAddress pointer.register slot) (.reg content.register))

theorem protects_assignField (around : Surroundings) (object : Expr) (field : String)
    (value : Expr) :
    (Stmt.assign (.field object field) value).code.Protects around [object, value]
      StoresThrough := by
  change (ExprCode.assignField object.code field (storedNames [value.code])
    value.code.value).Protects around _ _
  have names_eq := storedNames_codes [value]
  unfold ExprCode.assignField ExprCode.fieldSlot
  rw [whilePending_bind, bind_assoc]
  refine .guarded (names_eq ▸ List.Subset.refl _) fun pointer => .inl ?_
  refine .reads (.whilePending (.ite (.fail nofun) (.read rfl fun around => ?_)))
    fun (register, slot) draft ran => ?_
  · split
    · exact .fail nofun
    · split
      · exact .fail nofun
      · exact .pure _
  · obtain rfl : pointer.register = register := by
      split at ran
      · cases ran
      · rw [whilePending_bind] at ran
        obtain ⟨_, _, _, ran⟩ := bind_ok.mp ran
        split at ran
        · cases ran
        · split at ran
          · cases ran
          · cases ran
            rfl
    refine .last fun content => .ite (fun diverges => ?_) fun _ => .ite (fun _ => .fail) fun _ => ?_
    all_goals exact .nothing ⟨pointer, rfl, slot, prefix_rfl, by grind⟩

/-- Operands of each kind keep their registers while later ones are lowered, and code keeps the
registers of the names in scope to which it does not store. -/
theorem protects_operands_and_names : (∀ around operator left right want,
      (Lower.operands operator (Expr.code left) (Expr.code right) want).Protects around
        (computed left right) (PairsOperands want)) ∧
    (∀ operator left right want around draft found after,
      Lower.operands operator (Expr.code left) (Expr.code right) want around draft =
        .ok (some found, after) →
      left.literal?.isSome → right.literal? = none →
      ∃ value middle, right.code.value want around draft = .ok (value, middle) ∧
        (found.left = value ∨ found.left.register = middle.vregs.size)) ∧
    (∀ around name arguments, (Lower.callFunction name (codeOfExprs arguments)).Protects around
      arguments (CallsFunction around name)) ∧
    (∀ around object traitName method arguments,
      (Lower.callTraitMethod (Expr.code object) traitName method (codeOfExprs arguments)).Protects
        around (object :: arguments) CallsMethod) ∧
    (∀ around values, (Stmt.giveBack values).code.Protects around values
      (OnceComplete (returnTypes around.signature.returns values) () returnValues)) ∧
    (∀ around label counter type first last inclusive body,
      (Stmt.forLoop label counter type first last inclusive body).code.Protects around
        (bounds first last) (CountsThrough label counter type inclusive body.code)) ∧
    (∀ around object field value,
      (Stmt.assign (.field object field) value).code.Protects around [object, value]
        StoresThrough) ∧
    (∀ (expression : Expr) (want : Ty) (yes no : BlockId),
      (expression.code.value want).Spares (assignedNames [expression]) ∧
      (expression.code.branch yes no).Spares (assignedNames [expression]) ∧
      expression.code.results.Spares (assignedNames [expression])) ∧
    (∀ statement : Stmt, statement.code.Spares (storedIn statement.nodes)) ∧
    Lower.enterParams.Spares [] ∧ ({} : Draft).Sound := by
  refine ⟨protects_operands, fun _ _ _ _ _ _ _ _ lowered literal other =>
    operands_literal literal other lowered, protects_callFunction, protects_callTraitMethod,
    protects_giveBack, protects_forLoop, protects_assignField, fun expression want yes no => ?_,
    fun statement => ?_, ?_, Draft.wellFormed_empty signs⟩
  · have lowers (context : UnitContext) (signature : Signature) (base : Draft) :=
      expression.lowers ⟨context, signature, nodesOfExprs [expression], base, false⟩
        (subset_append_left _ _)
    exact ⟨spares_of_makes fun context signature base pending =>
        ⟨_, (lowers context signature base).value pending base want⟩,
      spares_of_makes fun context signature base pending =>
        ⟨_, (lowers context signature base).branch pending base yes no⟩,
      spares_of_makes fun context signature base pending =>
        ⟨_, (lowers context signature base).results pending base⟩⟩
  · exact spares_of_makes fun context signature base pending =>
      ⟨_, statement.executesIn ⟨context, signature, _, base, false⟩ (List.Subset.refl _) pending
        base⟩
  · exact (spares_of_makes fun context signature base pending =>
      ⟨_, Piece.executes_enterParams pending base⟩ : enterParams.Spares (storedIn []))

end Lower

end Backend65816
