import Backend65816.Proofs.LoweringReturns

/-!
# Code that lowering adds

Every step of lowering keeps the code that a draft has and adds code of its own. The code that a
piece of syntax adds defines new registers, and of the earlier ones only those of loops and of names
that it stores to; its calls are those that the convention of the function allows. Steps are
specified by what they make, with a rule for each way to combine them.
-/

namespace Backend65816

open List Nat

variable {action : Action} {vregs : Array VRegInfo} {code : DiagnosticCode} {draft after : Draft}
  {loop : EnclosingLoop} {piece : Piece} {cond : Prop} {message name : String} {type : Ty}
  {reg : VReg} {info : VRegInfo} {term : Terminator} {failure : LoweringFailure}

namespace Draft

/-! ## Code between two drafts -/

def actionAt? (draft : Draft) (id : BlockId) (position : Nat) : Option Action :=
  draft.blocks[id]?.bind fun block => block.actions[position]?

def Emits (before after : Draft) (action : Action) : Prop :=
  ∃ id position, after.actionAt? id position = some action ∧ before.actionAt? id position = none

section Code

variable {before mid : Draft}

theorem Emits.split (emits : before.Emits after action)
    (covered : mid.CoveredBy after.blocks after.vregs) :
    before.Emits mid action ∨ mid.Emits after action := by
  obtain ⟨id, pos, present, absent⟩ := emits
  cases found : mid.actionAt? id pos with
  | none => exact .inr ⟨id, pos, present, found⟩
  | some other =>
    obtain ⟨block, block_at, action_at⟩ := Option.bind_eq_some_iff.mp found
    obtain ⟨longer, longer_at, longer_extends⟩ := covered.blocks block_at
    obtain ⟨rest, actions_eq⟩ := longer_extends.actions
    refine .inl ⟨id, pos, found.trans ?_, absent⟩
    grind [actionAt?]

/-- Actions and end of a block; a number of no block stands for an empty one. -/
def codeAt (draft : Draft) (id : BlockId) : List Action × Option Terminator :=
  (draft.blocks[id]?.map fun block => (block.actions, block.terminator)).getD ([], none)

def endOf? (draft : Draft) (id : BlockId) : Option Terminator := (draft.codeAt id).2

section

variable (draft)

theorem actionAt?_eq (id : BlockId) (pos : Nat) :
    draft.actionAt? id pos = (draft.codeAt id).1[pos]? := by
  cases found : draft.blocks[id]? <;> simp [actionAt?, codeAt, found]

theorem not_emits_of_same (same : ∀ id, (after.codeAt id).1 = (before.codeAt id).1) :
    ¬before.Emits after action := by
  rintro ⟨id, pos, present, absent⟩
  rw [actionAt?_eq, same, ← actionAt?_eq, absent] at present
  cases present

theorem codeAt_addBlock (id : BlockId) : (draft.addBlock name).codeAt id = draft.codeAt id := by
  grind [codeAt, addBlock]

theorem codeAt_reopen (id : BlockId) : draft.reopen.codeAt id = draft.codeAt id := by
  unfold reopen
  split
  · exact draft.codeAt_addBlock id
  · rfl

theorem actions_terminate (term : Terminator) (id : BlockId) :
    ((draft.terminate term).codeAt id).1 = (draft.codeAt id).1 := by
  rw [← draft.codeAt_reopen, codeAt, codeAt, terminate, getElem?_modifyCurrent]
  grind

theorem endOf?_emit (action : Action) (id : BlockId) :
    (draft.emit action).endOf? id = draft.endOf? id := by
  rw [endOf?, endOf?, ← draft.codeAt_reopen, codeAt, codeAt, emit, getElem?_modifyCurrent]
  grind

end

theorem eq_of_endOf?_terminate {other : Terminator} {id : BlockId}
    (ends : (draft.terminate term).endOf? id = some other) :
    draft.endOf? id = some other ∨ id = draft.reopen.current ∧ other = term := by
  rw [endOf?, ← draft.codeAt_reopen, codeAt]
  rw [endOf?, codeAt, terminate, getElem?_modifyCurrent] at ends
  grind

theorem Emits.eq_of_emit {added : Action} (emits : draft.Emits (draft.emit added) action) :
    action = added := by
  obtain ⟨id, pos, present, absent⟩ := emits
  rw [actionAt?_eq, ← codeAt_reopen, codeAt] at absent
  rw [actionAt?_eq, codeAt, emit, getElem?_modifyCurrent] at present
  grind

theorem covered_modifyCurrent (draft : Draft) {change : BasicBlock → BasicBlock}
    (longer : ∀ block : BasicBlock, block.terminator = none → block.Extends (change block)) :
    draft.CoveredBy (draft.reopen.modifyCurrent change).blocks draft.vregs := by
  refine ⟨fun {id block} found => ?_, id⟩
  have below := (Array.getElem?_eq_some_iff.mp found).1
  rw [getElem?_modifyCurrent]
  unfold reopen
  by_cases closed : draft.isClosed = true
  · rw [if_pos closed]
    have other : ((draft.addBlock "dead").enter draft.blocks.size).current ≠ id :=
      ne_of_gt below
    rw [if_neg other]
    exact ⟨block, getElem?_push_of_some _ found, .refl block⟩
  · rw [if_neg closed]
    split
    · next same =>
      have block_eq : draft.currentBlock = block := currentBlock_of_getElem? (same ▸ found)
      simp_all [isClosed]
    · exact ⟨block, found, .refl block⟩

end Code

theorem Leads.info_eq (leads : draft.Leads after)
    (below : reg < draft.vregs.size) : after.info reg = draft.info reg := by
  have found := Array.getElem?_eq_getElem below
  rw [info_of_getElem? found, info_of_getElem? (leads.covered.vregs found)]

theorem Leads.of_same (covered : draft.CoveredBy after.blocks after.vregs)
    (scopes : after.scopes = draft.scopes) (loops : after.loops = draft.loops) :
    draft.Leads after :=
  ⟨covered, loops ▸ .refl _, fun _ changes => changes.of_same scopes loops⟩

end Draft

/-! ## Sound drafts -/

/-- Registers have the sign of the values that they hold. -/
def signs : RegisterRule where
  fits type info := info.signed = type.isSigned

namespace Draft

/-- What holds of every draft that lowering builds, wherever code goes on. -/
def Sound (draft : Draft) : Prop := ({ draft with current := 0 } : Draft).WellFormed signs

namespace Sound

variable (sound : draft.Sound)
include sound

theorem of_same (leads : draft.Leads after) (scopes : after.scopes = draft.scopes)
    (loops : after.loops = draft.loops) : after.Sound :=
  WellFormed.of_same sound (Nat.lt_of_lt_of_le sound.current leads.blocks_le) leads.blocks_le
    leads.covered.vregs scopes loops

theorem vregs_pos : 0 < draft.vregs.size :=
  (Array.getElem?_eq_some_iff.mp sound.noRegister).1

theorem zero_notMem_owned : 0 ∉ draft.owned :=
  fun owned => (WellFormed.owned_typed sound owned).1 rfl

theorem lt_of_mem_owned (owned : reg ∈ draft.owned) :
    reg < draft.vregs.size := (WellFormed.owned_typed sound owned).2

end Sound

/-- A register holds a value that code which stores to pending names only keeps. It has the sign of
its type, unless a routine left it. -/
structure Gives (draft : Draft) (pending : List String) (routine : Bool) (value : TypedReg) :
    Prop where
  known : value.register < draft.vregs.size
  lasting : ¬draft.Mutable pending value.register
  signed : value.register ≠ 0 → (draft.info value.register).signed = value.type.isSigned ∨
    routine = true ∧ (draft.info value.register).signed = false

namespace Gives

variable {due more : List String} {routine : Bool} {value : TypedReg}

theorem of_leads (gives : draft.Gives due routine value) (leads : draft.Leads after) :
    after.Gives due routine value where
  known := lt_of_lt_of_le gives.known leads.vregs_le
  lasting changes := gives.lasting (leads.changes gives.known changes)
  signed nonzero := leads.info_eq gives.known ▸ gives.signed nonzero

theorem of_pending (gives : draft.Gives more routine value) (subset : due ⊆ more) :
    draft.Gives due routine value :=
  { gives with lasting := fun changes => gives.lasting (changes.mono subset) }

theorem nothing (sound : draft.Sound) (none : value.register = 0) :
    draft.Gives due routine value where
  known := none ▸ sound.vregs_pos
  lasting changes := sound.zero_notMem_owned (none ▸ changes.mem_owned)
  signed nonzero := absurd none nonzero

theorem weaken (gives : draft.Gives due false value) : draft.Gives due routine value :=
  { gives with signed := fun nonzero => (gives.signed nonzero).imp_right fun own => nomatch own.1 }

theorem of_diverges (gives : draft.Gives due routine value) (diverges : value.diverges = true) :
    draft.Gives due false value :=
  { gives with
    signed := fun nonzero => .inl ((gives.signed nonzero).elim id fun own => own.2.trans
      (congrArg Ty.isSigned (TypedReg.diverges_iff.mp diverges)).symm) }

end Gives

def FreeBlock (draft : Draft) (id : BlockId) : Prop :=
  id < draft.blocks.size ∧ id ∉ draft.loops.map EnclosingLoop.exit

theorem FreeBlock.of_leads {id : BlockId} (free : draft.FreeBlock id)
    (leads : draft.Leads after) : after.FreeBlock id :=
  ⟨lt_of_lt_of_le free.1 leads.blocks_le, leads.loops.exits_eq ▸ free.2⟩

end Draft

/-! ## Steps that look at no function -/

/-- The same surroundings in a unit with other functions and implementations. -/
def Surroundings.over (around : Surroundings) (functions : List FunctionDecl)
    (impls : List ImplDecl) : Surroundings :=
  { around with context.unit.functions := functions, context.unit.impls := impls }

namespace Lower

variable {α β : Type}

/-- The steps go the same way whatever functions and implementations the unit has. -/
def BlindAt (steps : Lower α) (around : Surroundings) (draft : Draft) : Prop :=
  ∀ functions impls, steps (around.over functions impls) draft = steps around draft

/-- An outcome that is good, or a failure that is allowed. -/
def Allowed (good : α → Draft → Prop) (bad : LoweringFailure → Prop) :
    Except LoweringFailure (α × Draft) → Prop
  | .ok (value, after) => good value after
  | .error failure => bad failure

/-- The steps go the same way whatever functions the unit has, and their outcome is allowed. -/
structure Ends (steps : Lower α) (around : Surroundings) (draft : Draft)
    (good : α → Draft → Prop) (bad : LoweringFailure → Prop) : Prop where
  blind : steps.BlindAt around draft
  outcome : Allowed good bad (steps around draft)

namespace Ends

variable {around : Surroundings} {steps : Lower α} {next : α → Lower β} {value : α}
  {mid good : α → Draft → Prop} {last : β → Draft → Prop} {bad : LoweringFailure → Prop}

theorem of_ok (ends : steps.Ends around draft good bad)
    (ran : steps around draft = .ok (value, after)) : good value after := by
  have holds := ends.outcome
  rwa [ran] at holds

theorem of_error (ends : steps.Ends around draft good bad)
    (ran : steps around draft = .error failure) : bad failure := by
  have holds := ends.outcome
  rwa [ran] at holds

theorem bind (early : steps.Ends around draft mid bad)
    (late : ∀ {value middle}, mid value middle → (next value).Ends around middle last bad) :
    (steps >>= next).Ends around draft last bad := by
  refine ⟨fun functions impls => ?_, ?_⟩
  · change Except.bind (steps (around.over functions impls) draft) _ =
      Except.bind (steps around draft) _
    rw [early.blind]
    cases ran : steps around draft with
    | error => rfl
    | ok found => exact (late (early.of_ok ran)).blind functions impls
  · change Allowed last bad (.bind (steps around draft) _)
    cases ran : steps around draft with
    | error => exact early.of_error ran
    | ok found => exact (late (early.of_ok ran)).outcome

theorem run (ran : ∀ around, steps around draft = .ok (value, after)) (holds : good value after) :
    steps.Ends around draft good bad := by
  refine ⟨fun _ _ => (ran _).trans (ran _).symm, ?_⟩
  rwa [ran]

theorem step (ran : ∀ around, steps around draft = .ok (value, after))
    (late : (next value).Ends around after last bad) :
    (steps >>= next).Ends around draft last bad := by
  have early : steps.Ends around draft (fun found later => found = value ∧ later = after) bad :=
    run ran ⟨rfl, rfl⟩
  refine early.bind ?_
  rintro _ _ ⟨rfl, rfl⟩
  exact late

theorem imp {worse : LoweringFailure → Prop} (ends : steps.Ends around draft mid bad)
    (weaken : ∀ {value after}, mid value after → good value after)
    (allow : ∀ {failure}, bad failure → worse failure) : steps.Ends around draft good worse := by
  refine ⟨ends.blind, ?_⟩
  cases ran : steps around draft with
  | error => exact allow (ends.of_error ran)
  | ok found => exact weaken (ends.of_ok ran)

theorem pure (holds : good value draft) : (Pure.pure value : Lower α).Ends around draft good bad :=
  ⟨fun _ _ => rfl, holds⟩

theorem read {next : Surroundings → Lower α}
    (same : ∀ functions impls, next (around.over functions impls) = next around)
    (late : (next around).Ends around draft good bad) :
    (MonadReader.read >>= next).Ends around draft good bad := by
  refine ⟨fun functions impls => ?_, late.outcome⟩
  change next (around.over functions impls) _ draft = _
  rw [same]
  exact late.blind functions impls

end Ends

end Lower

/-- A failure other than a problem of a convention. -/
def LoweringFailure.Plain : LoweringFailure → Prop
  | .report problem => problem.kind ≠ .convention
  | .fault _ => True

namespace Lower

variable {α β : Type} {calls : Bool}

/-! ## Steps that only read -/

/-- Steps that keep the draft. They report no problem of a convention unless they check calls. -/
structure Reads (calls : Bool) (steps : Lower α) : Prop where
  ends : ∀ around draft, steps.Ends around draft (fun _ after => after = draft)
    fun failure => calls = true ∨ failure.Plain

namespace Reads

theorem same {steps : Lower α} {around : Surroundings} {result : α} (reads : Reads calls steps)
    (ran : steps around draft = .ok (result, after)) : after = draft :=
  (reads.ends around draft).of_ok ran

theorem pure (value : α) : Reads calls (Pure.pure value) :=
  ⟨fun _ _ => .pure rfl⟩

theorem fail (plain : code.kind ≠ .convention) : @Reads α calls (fail code message) :=
  ⟨fun _ _ => ⟨fun _ _ => rfl, .inr plain⟩⟩

theorem bind {steps : Lower α} {next : α → Lower β} (early : Reads calls steps)
    (late : ∀ value, Reads calls (next value)) : Reads calls (steps >>= next) where
  ends around draft := (early.ends around draft).bind fun same => by
    cases same
    exact (late _).ends around draft

theorem ite [Decidable cond] {first second : Lower α} (yes : Reads calls first)
    (no : Reads calls second) : Reads calls (if cond then first else second) := by
  split
  · exact yes
  · exact no

theorem read {next : Surroundings → Lower β}
    (same : (fun around functions impls => next (around.over functions impls)) =
      fun around _ _ => next around)
    (late : ∀ around, Reads calls (next around)) : Reads calls (MonadReader.read >>= next) where
  ends around draft := .read (congr_fun₂ (congrFun same around)) ((late around).ends around draft)

theorem get : Reads calls MonadState.get := ⟨fun _ _ => ⟨fun _ _ => rfl, rfl⟩⟩

theorem theUnit {next : CompilationUnit → Lower β} (same : (fun unit functions impls =>
      next { unit with functions := functions, impls := impls }) = fun unit _ _ => next unit)
    (late : ∀ unit, Reads calls (next unit)) : Reads calls (theUnit >>= next) :=
  read (funext fun around => congrFun same around.context.unit)
    fun around => late around.context.unit

theorem check (res : Except Diagnostic α) : Reads true (check res) := by
  cases res with
  | ok value => exact pure value
  | error => exact ⟨fun _ _ => ⟨fun _ _ => rfl, .inl rfl⟩⟩

theorem widthOf (type : Ty) : Reads false (widthOf type) := by
  refine theUnit rfl fun unit => ?_
  split
  · exact pure _
  · exact fail nofun

theorem checkLiteral (value : Int) (type : Ty) : Reads false (checkLiteral value type) := by
  refine ite (theUnit rfl fun unit => ?_) (pure ())
  split
  · exact pure ()
  · exact ite (fail nofun) (pure ())

theorem regInfo (reg : VReg) : Reads false (regInfo reg) := get.bind fun _ => pure _

theorem isDead : Reads false isDead := get.bind fun _ => pure _

end Reads

end Lower

/-! ## Pieces of code -/

section

variable {α : Type} (context : UnitContext) (signature : Signature)

/-- Steps that only read find a value in the code of a function. -/
def UnitContext.Finds (steps : Lower α) (value : α) : Prop :=
  ∃ pending depth draft, steps ⟨context, signature, pending, depth⟩ draft = .ok (value, draft)

/-- Steps fail in the code of a function. -/
def UnitContext.Fails (steps : Lower α) (failure : LoweringFailure) : Prop :=
  ∃ pending depth draft, steps ⟨context, signature, pending, depth⟩ draft = .error failure

/-- A call goes through the table of a method, with arguments in the places of its convention. -/
structure TableCall.LoweredFor (details : TableCall) (context : UnitContext)
    (signature : Signature) (vregs : Array VRegInfo) (table : DispatchTable) (trait : TraitDecl)
    (method : MethodDecl) (convention : Signature) : Prop where
  name : details.table = table.name
  declared : context.unit.findTrait? trait.name = some trait
  listed : method ∈ trait.methods
  found : context.plan.table? trait.name method.name = some table
  resolved : context.Finds signature (Lower.tableConvention table trait.name method) convention
  checked : context.Finds signature (Lower.checkEntries table) ()
  arguments : ∀ register ∈ details.arguments, register < vregs.size ∧
    ∃ param ∈ convention.params, (vregs.getD register {}).fixed = some param.location

def TableCall.Through (details : TableCall) (context : UnitContext) (signature : Signature)
    (vregs : Array VRegInfo) (table : DispatchTable) : Prop :=
  ∃ trait method convention,
    details.LoweredFor context signature vregs table trait method convention

def Action.address? : Action → Option Address
  | load _ address | store address _ => some address
  | _ => none

/-- Neither a call nor an access to memory by a name. -/
def Action.isLocal (action : Action) : Bool :=
  !action.isCall && action.address?.all fun address => address.symbol = ""

def Signature.addressOf (signature : Signature) (global : GlobalDecl) : Address where
  symbol := global.name
  fixed := global.address
  far := global.bank ≠ signature.bank

variable (vregs : Array VRegInfo)

/-- Calls that code of a function may make, and globals that it may reach. -/
inductive UnitContext.Allows : Action → Prop where
  | plain {action : Action} (quiet : action.isLocal = true) : Allows action
  | global {action : Action} {name : String} {global : GlobalDecl}
      (found : context.unit.findGlobal? name = some global)
      (reached : action.address? = some (signature.addressOf global)) : Allows action
  | direct {name : String} {callee : Signature} {details : DirectCall}
      (found : context.signatures.get? name = some callee)
      (checked : checkCall signature callee = .ok ()) (function : details.function = callee.name)
      (scratch : details.preservesScratch = callee.preserveScratch) : Allows (.call details)
  | routine {operation : String} {width : Width} {details : DirectCall}
      (function : details.function = (Signature.helper operation width signature.bank).name)
      (scratch : details.preservesScratch = true) : Allows (.call details)
  | table {details : TableCall} {table : DispatchTable}
      (through : details.Through context signature vregs table) : Allows (.dispatch details)

/-- A return hands over a register for each declared place, fixed to it and of its width. A function
that does not return has none. -/
def Signature.GivesBack (values : List VReg) : Prop :=
  signature.noReturn = false ∧
    values.map (fun register => ((vregs.getD register {}).fixed, (vregs.getD register {}).width)) =
      signature.returns.map fun slot => (some slot.location, slot.width)

theorem Signature.GivesBack.of_leads {signature : Signature} {values : List VReg}
    (gives : signature.GivesBack draft.vregs values) (leads : draft.Leads after) :
    signature.GivesBack after.vregs values := by
  refine ⟨gives.1, .trans (map_congr_left fun reg mem => ?_) gives.2⟩
  have below : reg < draft.vregs.size := by
    have placed := gives.2 ▸ mem_map_of_mem mem
    by_contra outside
    simp [outside] at placed
  have same : after.vregs.getD reg {} = draft.vregs.getD reg {} := leads.info_eq below
  rw [same]

variable (traitName method : String) (count : Nat)

/-- Why a method is not called: its table has no convention or an entry that may not be called, its
implementation is missing or may not be called, or there are too many or too few arguments. -/
inductive UnitContext.RefusesMethod : LoweringFailure → Prop where
  | convention {table : DispatchTable} {declared : MethodDecl} {failure : LoweringFailure}
      (found : context.plan.table? traitName method = some table)
      (failed : context.Fails signature (Lower.tableConvention table traitName declared) failure) :
      RefusesMethod failure
  | entry {table : DispatchTable} {failure : LoweringFailure}
      (found : context.plan.table? traitName method = some table)
      (failed : context.Fails signature (Lower.checkEntries table) failure) : RefusesMethod failure
  | missing {typeName : String}
      (absent : context.signatures.get? (methodSymbol typeName traitName method) = none) :
      RefusesMethod (.report (DiagnosticCode.unknownFunction.report signature.name
        (typeName ++ " does not implement " ++ traitName)))
  | implementation {typeName : String} {callee : Signature} {problem : Diagnostic}
      (found : context.signatures.get? (methodSymbol typeName traitName method) = some callee)
      (refused : checkCall signature callee = .error problem) : RefusesMethod (.report problem)
  | arity {callee : Signature} {message : String}
      (called : (∃ typeName,
          context.signatures.get? (methodSymbol typeName traitName method) = some callee) ∨
        ∃ table declared,
          context.Finds signature (Lower.tableConvention table traitName declared) callee)
      (differs : count ≠ callee.params.tail.length) :
      RefusesMethod (.report (DiagnosticCode.arity.report signature.name message))

/-- A call that breaks a rule, and a failure that it may cause. -/
inductive UnitContext.Refuses : SyntaxNode → LoweringFailure → Prop where
  | direct {name : String} {arguments : List Expr} {failure : LoweringFailure}
      (breaks : checkDirectCall context.signatures signature name arguments.length ≠ .ok ()) :
      Refuses (.expression (.call name arguments)) failure
  | method {receiver : Expr} {traitName method : String} {arguments : List Expr}
      {failure : LoweringFailure}
      (refuses : context.RefusesMethod signature traitName method arguments.length failure) :
      Refuses (.expression (.method receiver traitName method arguments)) failure

end

/-- Code of nodes that is added from a draft on. The code of a whole function may end it without
values, where nothing reaches its end. -/
structure Piece where
  context : UnitContext
  signature : Signature
  nodes : List SyntaxNode
  base : Draft
  whole : Bool := false

namespace Piece

/-- Names that the code may store to. -/
def names (piece : Piece) : List String := storedIn piece.nodes

/-- Problems of conventions come from calls that break a rule. -/
def MayFail (piece : Piece) (failure : LoweringFailure) : Prop :=
  failure.Plain ∨ ∃ node ∈ piece.nodes, piece.context.Refuses piece.signature node failure

def Owns (piece : Piece) (register : VReg) : Prop :=
  piece.base.vregs.size ≤ register ∨ piece.base.Mutable piece.names register

def Permits (piece : Piece) (vregs : Array VRegInfo) (action : Action) : Prop :=
  piece.context.Allows piece.signature vregs action ∧ ∀ register ∈ action.defs, piece.Owns register

theorem permits_of_owns (owns : piece.Owns reg) (quiet : action.isLocal = true)
    (defs : action.defs = [reg]) : piece.Permits vregs action :=
  ⟨.plain quiet, fun _ mem => mem_singleton.mp (defs ▸ mem) ▸ owns⟩

theorem Permits.of_leads (permits : piece.Permits draft.vregs action) (leads : draft.Leads after) :
    piece.Permits after.vregs action := by
  obtain ⟨allowed, owns⟩ := permits
  refine ⟨?_, owns⟩
  cases allowed with
  | plain quiet => exact .plain quiet
  | global found reached => exact .global found reached
  | direct found checked fn scratch => exact .direct found checked fn scratch
  | routine fn scratch => exact .routine fn scratch
  | table through =>
    obtain ⟨trait, method, convention, ran⟩ := through
    refine .table ⟨trait, method, convention, { ran with arguments := fun reg mem => ?_ }⟩
    obtain ⟨known, placed⟩ := ran.arguments reg mem
    refine ⟨lt_of_lt_of_le known leads.vregs_le, ?_⟩
    change ∃ param ∈ _, (after.info reg).fixed = _
    rw [leads.info_eq known]
    exact placed

def MayReturn (piece : Piece) (vregs : Array VRegInfo) (values : List VReg) : Prop :=
  piece.whole = true ∨ piece.signature.GivesBack vregs values

/-- A draft to which code of the piece was added. -/
structure Built (piece : Piece) (draft : Draft) : Prop where
  covered : piece.base.CoveredBy draft.blocks draft.vregs
  changes : ∀ {names : List String} {register : VReg}, register < piece.base.vregs.size →
    draft.Mutable names register → piece.base.Mutable names register
  sound : draft.Sound
  emitted : ∀ {action : Action}, piece.base.Emits draft action → piece.Permits draft.vregs action
  returned : ∀ {id : BlockId} {values : List VReg}, draft.endOf? id = some (.giveBack values) →
    piece.base.endOf? id = some (.giveBack values) ∨ piece.MayReturn draft.vregs values

abbrev Grows (piece : Piece) (draft after : Draft) : Prop := piece.Built after ∧ draft.Leads after

/-- A new register that is kept for a value. -/
structure Temp (piece : Piece) (draft : Draft) (register : VReg) (signed : Bool) : Prop where
  new : piece.base.vregs.size ≤ register
  nonzero : register ≠ 0
  known : register < draft.vregs.size
  free : register ∉ draft.owned
  signed : (draft.info register).signed = signed

namespace Temp

variable {signed : Bool}

theorem of_leads (temp : piece.Temp draft reg signed) (leads : draft.Leads after) :
    piece.Temp after reg signed where
  new := temp.new
  nonzero := temp.nonzero
  known := lt_of_lt_of_le temp.known leads.vregs_le
  free owned := temp.free (leads.mem_owned temp.known owned)
  signed := (congrArg VRegInfo.signed (leads.info_eq temp.known)).trans temp.signed

variable (temp : piece.Temp draft reg type.isSigned)
include temp

theorem value (due : List String) : draft.Gives due false { register := reg, type } where
  known := temp.known
  lasting changes := temp.free changes.mem_owned
  signed _ := .inl temp.signed

theorem typed : draft.Typed signs { register := reg, type } := by
  refine ⟨temp.nonzero, draft.info reg, ?_, temp.signed⟩
  rw [Draft.info, Array.getD_eq_getD_getElem?, Array.getElem?_eq_getElem temp.known]
  rfl

end Temp

namespace Built

variable {mid : Draft}

theorem start (sound : piece.base.Sound) : piece.Built piece.base where
  covered := .refl _
  changes _ changes := changes
  sound := sound
  emitted emits := absurd emits (Draft.not_emits_of_same fun _ => rfl)
  returned := .inl

section

variable (built : piece.Built draft)
include built

theorem base_le : piece.base.vregs.size ≤ draft.vregs.size := by
  by_contra less
  have found := built.covered.vregs (Array.getElem?_eq_getElem (Nat.lt_of_not_le less))
  simp_all

theorem owns_of_mutable (changes : draft.Mutable piece.names reg) : piece.Owns reg := by
  by_cases old : reg < piece.base.vregs.size
  · exact .inr (built.changes old changes)
  · exact .inl (Nat.le_of_not_lt old)

theorem step (leads : draft.Leads after) (sound : after.Sound)
    (emitted : ∀ {action : Action}, draft.Emits after action → piece.Permits after.vregs action)
    (returned : ∀ {id : BlockId} {values : List VReg}, after.endOf? id = some (.giveBack values) →
      draft.endOf? id = some (.giveBack values) ∨ piece.MayReturn after.vregs values) :
    piece.Built after where
  covered := built.covered.trans leads.covered
  changes below changes :=
    built.changes below (leads.changes (lt_of_lt_of_le below built.base_le) changes)
  sound := sound
  emitted emits := (emits.split leads.covered).elim
    (fun early => (built.emitted early).of_leads leads) emitted
  returned ends := (returned ends).elim (fun early => (built.returned early).imp_right
    (.imp_right (·.of_leads leads))) .inr

theorem quiet (leads : draft.Leads after) (sound : after.Sound)
    (same : ∀ id, after.codeAt id = draft.codeAt id) : piece.Built after := by
  refine built.step leads sound (fun emits => absurd emits ?_) fun ended => .inl ?_
  · exact Draft.not_emits_of_same fun id => congrArg Prod.fst (same id)
  · rwa [Draft.endOf?, ← same]

theorem keep (covered : draft.CoveredBy after.blocks after.vregs)
    (scopes : after.scopes = draft.scopes) (loops : after.loops = draft.loops)
    (same : ∀ id, after.codeAt id = draft.codeAt id) : piece.Grows draft after :=
  have leads := .of_same covered scopes loops
  ⟨built.quiet leads (built.sound.of_same leads scopes loops) same, leads⟩

theorem emit (permits : piece.Permits draft.vregs action) :
    piece.Grows draft (draft.emit action) := by
  have leads : draft.Leads (draft.emit action) := by
    refine .of_same ?_ draft.emit_scopes draft.emit_loops
    rw [draft.emit_vregs]
    exact draft.covered_modifyCurrent fun block opened =>
      ⟨prefix_append _ _, fun closed => by rw [opened] at closed; cases closed⟩
  refine ⟨built.step leads ?_ (fun emits => (emits.eq_of_emit ▸ permits).of_leads leads)
    fun {id _} ends => .inl ((draft.endOf?_emit action id).symm.trans ends), leads⟩
  exact built.sound.of_same leads draft.emit_scopes draft.emit_loops

theorem terminate (returns : ∀ vals, term = .giveBack vals → piece.MayReturn draft.vregs vals) :
    piece.Grows draft (draft.terminate term) := by
  have leads : draft.Leads (draft.terminate term) := by
    refine .of_same ?_ (draft.terminate_scopes term) (draft.terminate_loops term)
    rw [draft.terminate_vregs]
    exact draft.covered_modifyCurrent fun block opened =>
      ⟨prefix_refl _, fun closed => by rw [opened] at closed; cases closed⟩
  refine ⟨built.step leads ?_ (fun emits => absurd emits ?_) fun ends => ?_, leads⟩
  · exact built.sound.of_same leads (draft.terminate_scopes term) (draft.terminate_loops term)
  · exact Draft.not_emits_of_same (draft.actions_terminate term)
  · rw [draft.terminate_vregs]
    exact (Draft.eq_of_endOf?_terminate ends).imp_right fun same => returns _ same.2.symm

theorem addBlock (name : String) : piece.Grows draft (draft.addBlock name) :=
  built.keep ⟨fun found => ⟨_, Draft.getElem?_push_of_some _ found, .refl _⟩, id⟩
    rfl rfl draft.codeAt_addBlock

variable (info)

theorem addReg : piece.Built (draft.addReg info) ∧ draft.Leads (draft.addReg info) ∧
      piece.Temp (draft.addReg info) draft.vregs.size info.signed := by
  have ⟨added, leads⟩ : piece.Grows draft (draft.addReg info) :=
    built.keep ⟨fun found => ⟨_, found, .refl _⟩, Draft.getElem?_push_of_some info⟩ rfl rfl
      fun _ => rfl
  refine ⟨added, leads, built.base_le, ne_of_gt built.sound.vregs_pos, ?_, fun owned => ?_, ?_⟩
  · rw [Draft.addReg, Array.size_push]
    exact lt_succ_self _
  · exact lt_irrefl _ (built.sound.lt_of_mem_owned owned)
  · rw [Draft.info, Draft.addReg, Array.getD_eq_getD_getElem?, Array.getElem?_push_size]
    rfl

theorem pushScope : piece.Grows draft draft.pushScope :=
  have pushed := Draft.WellFormed.pushScope built.sound
  have leads : draft.Leads draft.pushScope := ⟨.refl draft, pushed.loops, pushed.changes⟩
  ⟨built.quiet leads pushed.wellFormed fun _ => rfl, leads⟩

theorem popScope : piece.Grows draft draft.popScope :=
  have popped := Draft.WellFormed.popScope built.sound
  have leads : draft.Leads draft.popScope := ⟨.refl draft, popped.loops, popped.changes⟩
  ⟨built.quiet leads popped.wellFormed fun _ => rfl, leads⟩

theorem pushLoop (empty : loop.result = none) (inside : loop.exit < draft.blocks.size)
    (new : loop.exit ∉ draft.loops.map EnclosingLoop.exit) : piece.Built (draft.pushLoop loop) where
  covered := built.covered
  changes below changes := by
    refine built.changes below (changes.imp_left ?_)
    rintro ⟨other, mem, known⟩
    rcases mem_cons.mp mem with rfl | mem
    all_goals grind
  sound := Draft.WellFormed.pushLoop built.sound empty inside new
  emitted := built.emitted
  returned := built.returned

theorem popLoop : piece.Built draft.popLoop where
  covered := built.covered
  changes below changes := built.changes below
    (changes.imp_left fun ⟨loop, mem, known⟩ => ⟨loop, mem_of_mem_drop mem, known⟩)
  sound := Draft.WellFormed.popLoop built.sound
  emitted := built.emitted
  returned := built.returned

theorem modifyFlags (exit : BlockId) {change : EnclosingLoop → EnclosingLoop}
    (grows : ∀ loop : EnclosingLoop, loop.Grows (change loop))
    (res : ∀ loop, (change loop).result = loop.result)
    (type : ∀ loop, (change loop).type = loop.type) :
    piece.Grows draft (draft.modifyLoop exit change) :=
  have leads : draft.Leads (draft.modifyLoop exit change) :=
    (Draft.Leads.refl draft).modifyLoop (fun loop _ _ => grows loop)
      fun loop _ _ _ known => .inl (res loop ▸ known)
  ⟨built.quiet leads (.modifyFlags grows res type built.sound) fun _ => rfl, leads⟩

end

section

variable (early : piece.Built draft) (built : piece.Built mid) (leads : draft.Leads mid)
  (temp : piece.Temp mid reg type.isSigned) (new : draft.vregs.size ≤ reg)
include early built leads temp new

theorem declare (name : String) :
    piece.Grows draft (mid.declare name { register := reg, type }) := by
  have declared : draft.Leads (mid.declare name { register := reg, type }) := leads.declare new
  refine ⟨⟨?_, fun below changes => ?_, ?_, ?_, ?_⟩, declared⟩
  · rw [Draft.declare_eq]
    exact built.covered
  · exact early.changes below (declared.changes (lt_of_lt_of_le below early.base_le) changes)
  · have sound : (Draft.declare { mid with current := 0 } name ⟨reg, type⟩).WellFormed signs :=
      Draft.WellFormed.declare built.sound temp.typed temp.free
    grind [Draft.Sound, Draft.declare]
  · rw [Draft.declare_eq]
    exact built.emitted
  · rw [Draft.declare_eq]
    exact built.returned

theorem modifyResult {exit : BlockId}
    (empty : ∀ loop ∈ mid.loops, loop.exit = exit → loop.result = none) :
    piece.Grows draft (mid.withResult exit ⟨reg, type⟩) := by
  have changed : draft.Leads (mid.withResult exit ⟨reg, type⟩) := leads.modifyResult empty new
  refine ⟨⟨built.covered, fun below changes => ?_, ?_, built.emitted, built.returned⟩, changed⟩
  · exact early.changes below (changed.changes (lt_of_lt_of_le below early.base_le) changes)
  · refine .modifyResult ?_ built.sound temp.typed temp.free
    exact empty

end

theorem addLocal (built : piece.Built draft) (signed : info.signed = type.isSigned)
    (quiet : action.isLocal = true) (defs : action.defs = [draft.vregs.size]) (name : String) :
    piece.Grows draft ((draft.addResult info action).declare name ⟨draft.vregs.size, type⟩) := by
  obtain ⟨added, leads, temp⟩ := built.addReg info
  obtain ⟨emitted, emit_leads⟩ := added.emit (permits_of_owns (.inl temp.new) quiet defs)
  exact built.declare emitted (leads.trans emit_leads) (signed ▸ temp.of_leads emit_leads) le_rfl
    name

end Built

/-! ## What steps make -/

def around (piece : Piece) (pending : List String) (depth : Nat) : Surroundings :=
  ⟨piece.context, piece.signature, pending, depth⟩

/-- From a draft on, the steps add code of the piece and have a result of a kind, or fail as the piece
may. What they do does not depend on the functions of the unit. -/
structure Makes {α : Type} (piece : Piece) (pending : List String) (start : Draft)
    (steps : Lower α) (post : Draft → α → Prop) : Prop where
  ends : ∀ ⦃depth : Nat⦄ ⦃draft : Draft⦄, start.Leads draft → piece.Built draft →
    steps.Ends (piece.around pending depth) draft
      (fun result after => piece.Built after ∧ draft.Leads after ∧ post after result) piece.MayFail

/-- From a draft on, the steps add code of the piece. -/
abbrev Lays {α : Type} (piece : Piece) (pending : List String) (start : Draft)
    (steps : Lower α) : Prop :=
  piece.Makes pending start steps fun _ _ => True

/-- From a draft on, the steps add code of the piece with a value. -/
abbrev MakesValue (piece : Piece) (pending : List String) (start : Draft) (routine : Bool)
    (steps : Lower TypedReg) : Prop :=
  piece.Makes pending start steps fun draft value => draft.Gives pending routine value

abbrev MakesValues (piece : Piece) (pending : List String) (start : Draft)
    (steps : Lower (List TypedReg)) : Prop :=
  piece.Makes pending start steps fun draft values => ∀ value ∈ values, draft.Gives pending false value

namespace Makes

variable {α β : Type} {due : List String} {start : Draft} {steps : Lower α} {next : α → Lower β}
  {mid : Draft → α → Prop} {post : Draft → β → Prop}

theorem made {res : α} {depth : Nat} (makes : piece.Makes due start steps mid)
    (leads : start.Leads draft) (built : piece.Built draft)
    (ran : steps (piece.around due depth) draft = .ok (res, after)) :
    piece.Built after ∧ draft.Leads after ∧ mid after res :=
  (makes.ends leads built).of_ok ran

theorem resume {depth : Nat} (makes : piece.Makes due start steps mid) (built : piece.Built start)
    (leads : draft.Leads start) : steps.Ends (piece.around due depth) start
      (fun result after => piece.Built after ∧ draft.Leads after ∧ mid after result) piece.MayFail :=
  (makes.ends (.refl start) built).imp (fun ⟨built, after_leads, holds⟩ =>
    ⟨built, leads.trans after_leads, holds⟩) id

theorem bind (early : piece.Makes due start steps mid)
    (late : ∀ value middle, start.Leads middle → mid middle value →
      piece.Makes due middle (next value) post) : piece.Makes due start (steps >>= next) post where
  ends _ _ leads built := (early.ends leads built).bind fun ⟨built, middle_leads, holds⟩ =>
    (late _ _ (leads.trans middle_leads) holds).resume built middle_leads

theorem later {middle : Draft} (makes : piece.Makes due start steps mid)
    (leads : start.Leads middle) : piece.Makes due middle steps mid :=
  ⟨fun _ _ leads' => makes.ends (leads.trans leads')⟩

theorem andThen (early : piece.Makes due start steps mid)
    (late : ∀ value, piece.Makes due start (next value) post) :
    piece.Makes due start (steps >>= next) post :=
  early.bind fun value _ leads _ => (late value).later leads

theorem seq {rest : Lower β} (early : piece.Makes due start steps mid)
    (late : piece.Makes due start rest post) :
    piece.Makes due start (steps >>= fun _ => rest) post :=
  early.andThen fun _ => late

theorem pure {value : β} (holds : ∀ {draft}, start.Leads draft → piece.Built draft →
    post draft value) : piece.Makes due start (Pure.pure value) post where
  ends _ draft leads built := .pure ⟨built, .refl draft, holds leads built⟩

theorem done {value : β} : piece.Lays due start (Pure.pure value) :=
  pure fun _ _ => trivial

theorem throw (may : piece.MayFail failure) :
    piece.Makes due start (throw failure : Lower β) post :=
  ⟨fun _ _ _ _ => ⟨fun _ _ => rfl, may⟩⟩

theorem refuse (may : piece.MayFail (.report (code.report piece.signature.name message))) :
    piece.Makes due start (Lower.fail code message) post :=
  ⟨fun _ _ _ _ => ⟨fun _ _ => rfl, may⟩⟩

theorem fail (plain : code.kind ≠ .convention) :
    piece.Makes due start (Lower.fail code message) post := refuse (.inl plain)

theorem ite [Decidable cond] {first second : Lower β}
    (yes : cond → piece.Makes due start first post)
    (no : ¬cond → piece.Makes due start second post) :
    piece.Makes due start (if cond then first else second) post := by
  grind

theorem guard [Decidable cond] {rest : Lower β} (plain : code.kind ≠ .convention)
    (late : piece.Makes due start rest post) :
    piece.Makes due start (if cond then Lower.fail code message else rest) post :=
  ite (fun _ => fail plain) fun _ => late

theorem check {res : Except Diagnostic Unit} {next : Unit → Lower β}
    (may : ∀ problem, res = .error problem → piece.MayFail (.report problem))
    (late : res = .ok () → piece.Makes due start (next ()) post) :
    piece.Makes due start (Lower.check res >>= next) post := by
  cases res with
  | ok => exact late rfl
  | error problem => exact throw (may problem rfl)

theorem reads (reads : steps.Reads false) (late : ∀ value, piece.Makes due start (next value) post) :
    piece.Makes due start (steps >>= next) post where
  ends _ draft leads built := ((reads.ends _ draft).imp id fun fails =>
    .inl (fails.resolve_left nofun)).bind fun same => by
      cases same
      exact (late _).ends leads built

theorem finds {calls : Bool} (reads : steps.Reads calls)
    (may : ∀ failure, piece.context.Fails piece.signature steps failure → piece.MayFail failure) :
    piece.Makes due start steps fun _ value => piece.context.Finds piece.signature steps value := by
  refine ⟨fun depth draft leads built => ⟨(reads.ends _ draft).blind, ?_⟩⟩
  cases ran : steps (piece.around due depth) draft with
  | error failure => exact may failure ⟨due, depth, draft, ran⟩
  | ok found =>
    obtain ⟨value, after⟩ := found
    obtain rfl := reads.same ran
    exact ⟨built, .refl _, due, depth, after, ran⟩

theorem read {next : Surroundings → Lower β}
    (same : (fun around functions impls => next (around.over functions impls)) =
      fun around _ _ => next around)
    (late : ∀ depth, piece.Makes due start (next (piece.around due depth)) post) :
    piece.Makes due start (MonadReader.read >>= next) post where
  ends depth _ leads built :=
    .read (congr_fun₂ (congrFun same _)) ((late depth).ends leads built)

theorem modify {change : Draft → Draft}
    (steps : ∀ {draft}, start.Leads draft → piece.Built draft → piece.Grows draft (change draft)) :
    piece.Lays due start (modify change) where
  ends _ _ leads built :=
    have ⟨built, leads⟩ := steps leads built
    ⟨fun _ _ => rfl, built, leads, trivial⟩

theorem emitFrom (permits : ∀ {draft}, start.Leads draft → piece.Permits draft.vregs action) :
    piece.Lays due start (Lower.emit action) :=
  modify fun leads built => built.emit (permits leads)

theorem emit (permits : ∀ {vregs}, piece.Permits vregs action) :
    piece.Lays due start (Lower.emit action) :=
  emitFrom fun _ => permits

theorem terminate (goes : ∀ vals, term ≠ .giveBack vals) :
    piece.Lays due start (Lower.terminate term) :=
  modify fun _ built => built.terminate fun vals same => absurd same (goes vals)

theorem jump (target : BlockId) : piece.Lays due start (Lower.jump target) := terminate nofun

theorem enter (id : BlockId) : piece.Lays due start (Lower.enter id) :=
  modify fun {draft} _ built => built.keep (.refl draft) rfl rfl fun _ => rfl

theorem markUnreached : piece.Lays due start Lower.markUnreached :=
  modify fun {draft} _ built => built.keep (.refl draft) rfl rfl fun _ => rfl

theorem newRegWith (info : VRegInfo) :
    piece.Makes due start (Lower.newRegWith info) fun draft reg =>
      piece.Temp draft reg info.signed :=
  ⟨fun _ _ _ built => ⟨fun _ _ => rfl, built.addReg info⟩⟩

theorem newFixedReg (name : String) (width : Width) (signed : Bool) (place : Loc) :
    piece.Makes due start (Lower.newFixedReg name width signed place) fun draft reg =>
      piece.Temp draft reg signed ∧
        draft.info reg = { name, width, signed, fixed := some place } := by
  refine ⟨fun depth draft leads built => ?_⟩
  obtain ⟨added, added_leads, temp⟩ := built.addReg { name, width, signed, fixed := some place }
  refine ⟨fun _ _ => rfl, added, added_leads, temp, ?_⟩
  change (draft.vregs.push _).getD draft.vregs.size {} = _
  simp

theorem newReg (name : String) (width : Width) (signed : Bool) :
    piece.Makes due start (Lower.newReg name width signed) fun draft reg =>
      piece.Temp draft reg signed := newRegWith _

theorem newTemp (name : String) (type : Ty) :
    piece.Makes due start (Lower.newTemp name type) fun draft reg =>
      piece.Temp draft reg type.isSigned :=
  reads (.widthOf type) fun width => newReg name width _

section

variable {action : VReg → Action} (quiet : (fun reg => (action reg).isLocal) = fun _ => true)
  (defs : (fun reg => (action reg).defs) = fun reg => [reg])
include quiet defs

theorem define {next : VReg → Lower β}
    (late : ∀ reg mid, start.Leads mid → piece.Temp mid reg info.signed →
      piece.Makes due mid (next reg) post) :
    piece.Makes due start (Lower.newRegWith info >>= fun reg =>
        Lower.emit (action reg) >>= fun _ => next reg) post := by
  refine (newRegWith info).bind fun reg mid leads temp => ?_
  have permits {vregs : Array VRegInfo} : piece.Permits vregs (action reg) :=
    permits_of_owns (.inl temp.new) (congrFun quiet reg) (congrFun defs reg)
  exact (emit permits).bind fun _ last leads' _ =>
    late reg last (leads.trans leads') (temp.of_leads leads')

theorem compute {width : Width} :
    piece.MakesValue due start false (do
      let reg ← Lower.newReg name width type.isSigned
      Lower.emit (action reg)
      return ({ register := reg, type } : TypedReg)) :=
  define quiet defs fun _ _ _ temp => pure fun leads _ => (temp.of_leads leads).value due

theorem declare {next : VReg → Lower β} (signed : info.signed = type.isSigned)
    (late : ∀ reg mid, start.Leads mid → piece.Owns reg → piece.Makes due mid (next reg) post) :
    piece.Makes due start (Lower.newRegWith info >>= fun reg => Lower.emit (action reg) >>= fun _ =>
        Lower.declare name { register := reg, type } >>= fun _ => next reg) post := by
  refine ⟨fun _ _ leads built => ?_⟩
  obtain ⟨declared, declared_leads⟩ :=
    built.addLocal signed (congrFun quiet _) (congrFun defs _) name
  exact .step (fun _ => rfl) <| .step (fun _ => rfl) <| .step (fun _ => rfl) <|
    (late _ _ (leads.trans declared_leads) (.inl built.base_le)).resume declared declared_leads

end

theorem newBlock (name : String) :
    piece.Makes due start (Lower.newBlock name) fun draft id => draft.FreeBlock id := by
  refine ⟨fun depth draft leads built => ?_⟩
  obtain ⟨added, leads⟩ := built.addBlock name
  refine ⟨fun _ _ => rfl, added, leads, ?_, fun mem => ?_⟩
  · simp
  · obtain ⟨loop, loop_mem, same⟩ := mem_map.mp mem
    exact Nat.ne_of_lt (built.sound.exits_lt loop_mem) same

theorem whilePending {names : List String} {post : Draft → α → Prop}
    (makes : piece.Makes (names ++ due) start steps post) :
    piece.Makes due start (Lower.whilePending names steps) post :=
  ⟨fun _ _ leads built => ⟨(makes.ends leads built).blind, (makes.ends leads built).outcome⟩⟩

theorem inRange {post : Draft → α → Prop} (makes : piece.Makes due start steps post) :
    piece.Makes due start (Lower.inRange steps) post where
  ends depth draft leads built :=
    have ends := @makes.ends (depth + 1) draft leads built
    ⟨ends.blind, ends.outcome⟩

theorem imp {post weaker : Draft → α → Prop} (makes : piece.Makes due start steps post)
    (weaken : ∀ {draft res}, start.Leads draft → post draft res → weaker draft res) :
    piece.Makes due start steps weaker where
  ends _ _ leads built := (makes.ends leads built).imp (fun ⟨built, after_leads, holds⟩ =>
    ⟨built, after_leads, weaken (leads.trans after_leads) holds⟩) id

theorem inScope {post : Draft → α → Prop} (makes : piece.Makes due start steps post)
    (keeps : ∀ {draft after res}, draft.Leads after → post draft res → post after res) :
    piece.Makes due start (Lower.inScope steps) post := by
  refine (modify fun _ built => built.pushScope).seq (makes.bind fun res mid _ holds => ?_)
  refine (modify fun _ built => built.popScope).bind fun _ last leads _ => ?_
  exact pure fun leads' _ => keeps (leads.trans leads') holds

/-- A loop in which breaks may carry values. The register of the values is free after the loop. -/
theorem inLoop {steps : Lower Unit} (empty : loop.result = none) (free : start.FreeBlock loop.exit)
    (makes : ∀ inner, piece.Lays due inner steps) :
    piece.Makes due start (Lower.inLoop loop steps) fun draft left =>
      ∀ reg, left.result = some reg →
        draft.Gives due false { register := reg, type := left.type } := by
  refine ⟨fun depth draft leads built => ?_⟩
  obtain ⟨inside, new⟩ := free.of_leads leads
  refine .step (fun _ => rfl) (((makes _).ends (.refl _) (built.pushLoop empty inside new)).bind
    fun {_ inner} ⟨built, inner_leads, _⟩ =>
      ⟨fun _ _ => rfl, built.popLoop, inner_leads.popLoop empty, fun reg known => ?_⟩)
  obtain ⟨later, loops_eq, -⟩ := inner_leads.exists_loop
  rw [loops_eq, headD_cons] at known ⊢
  obtain ⟨nonzero, info, found, fits⟩ := built.sound.results (loops_eq ▸ .head _) known
  refine ⟨(Array.getElem?_eq_some_iff.mp found).1, fun changes => ?_, fun _ => .inl ?_⟩
  · have distinct : inner.owned.Nodup := built.sound.distinct
    rw [Draft.owned, loops_eq, filterMap_cons_some known, perm_middle.nodup_iff] at distinct
    exact (nodup_cons.mp distinct).1 changes.mem_owned
  · exact (congrArg VRegInfo.signed (Draft.info_of_getElem? found)).trans fits

theorem forM {items : List α} {each : α → Lower Unit}
    (makes : ∀ item ∈ items, piece.Lays due start (each item)) :
    piece.Lays due start (items.forM each) := by
  induction items with
  | nil => exact pure fun _ _ => trivial
  | cons item rest ih =>
    obtain ⟨first, others⟩ := forall_mem_cons.mp makes
    exact first.seq (ih others)

theorem mapEach {items : List α} {each : α → Lower β} (post : α → Draft → β → Prop)
    (makes : ∀ item ∈ items, piece.Makes due start (each item) (post item))
    (keeps : ∀ {item draft after res}, draft.Leads after → post item draft res →
      post item after res) :
    piece.Makes due start (items.mapM each) fun draft => List.Forall₂ (post · draft) items := by
  induction items generalizing start with
  | nil => exact pure fun _ _ => .nil
  | cons item rest ih =>
    obtain ⟨first, others⟩ := forall_mem_cons.mp makes
    rw [mapM_cons]
    refine first.bind fun value mid leads holds => ?_
    refine (ih fun item mem => (others item mem).later leads).bind fun vals last leads all => ?_
    exact pure fun leads' _ =>
      .cons (keeps (leads.trans leads') holds) (all.imp fun _ _ => keeps leads')

theorem mapM {items : List α} {each : α → Lower β} (post : Draft → β → Prop)
    (makes : ∀ item ∈ items, piece.Makes due start (each item) post)
    (keeps : ∀ {draft after res}, draft.Leads after → post draft res → post after res) :
    piece.Makes due start (items.mapM each) fun draft results =>
      ∀ res ∈ results, post draft res := by
  refine (mapEach (fun _ => post) makes keeps).imp fun _ all res mem => ?_
  obtain ⟨idx, found⟩ := mem_iff_getElem?.mp mem
  obtain ⟨_, _, holds⟩ := forall₂_getElem? all.flip found
  exact holds

theorem foldlM {items : List α} {each : β → α → Lower β} (post : Draft → β → Prop) {state : β}
    (holds : post start state)
    (makes : ∀ {start state} item, post start state → piece.Makes due start (each state item) post)
    (keeps : ∀ {draft after state}, draft.Leads after → post draft state → post after state) :
    piece.Makes due start (items.foldlM each state) post := by
  induction items generalizing start state with
  | nil => exact pure fun leads _ => keeps leads holds
  | cons item rest ih =>
    grind [bind]

end Makes

theorem Temp.makes {start : Draft} {due : List String} (temp : piece.Temp start reg type.isSigned)
    (quiet : action.isLocal = true) (defs : action.defs = [reg]) :
    piece.MakesValue due start false (do
      Lower.emit action
      return ({ register := reg, type } : TypedReg)) :=
  (Makes.emit (permits_of_owns (.inl temp.new) quiet defs)).seq <|
    .pure fun leads _ => (temp.of_leads leads).value due

end Piece

end Backend65816
