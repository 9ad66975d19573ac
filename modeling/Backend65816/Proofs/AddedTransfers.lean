import Backend65816.Proofs.AddedValues

/-!
# Code of calls and returns

The code of a call defines new registers only, and its call is one that was checked.
-/

namespace Backend65816

open List Lower

variable {exprs : List Expr} {name : String}

/-- The rules for direct calls. -/
structure Signature.MayCall (caller callee : Signature) (count : Nat) : Prop where
  arity : count = callee.params.length
  callable : callee.interrupt.isSome = false
  near : callee.far = true ∨ callee.bank = caller.bank
  scratch : caller.preserveScratch = true → callee.preserveScratch = true

theorem checkCall_eq_ok_iff {caller callee : Signature} : checkCall caller callee = .ok () ↔
    (callee.far = true ∨ callee.bank = caller.bank) ∧
      (caller.preserveScratch = true → callee.preserveScratch = true) := by
  grind [checkCall, checkScratch]

theorem checkDirectCall_eq_ok_iff {signatures : Signatures} {caller : Signature}
    {count : Nat} : checkDirectCall signatures caller name count = .ok () ↔
      ∃ callee, signatures.get? name = some callee ∧ caller.MayCall callee count := by
  grind [checkDirectCall, checkCall_eq_ok_iff, Signature.MayCall]

theorem length_codeOfExprs (exprs : List Expr) : (codeOfExprs exprs).length = exprs.length := by
  rw [← length_map ExprCode.source, sources_eq]

namespace Piece

variable {piece : Piece} {due : List String} {start : Draft} {callee : Signature}
  {args : List ExprCode}

theorem makes_fillPlace (name : String) (width : Width) (type : Ty) (place : Loc)
    (value : TypedReg) :
    piece.Makes due start (fillPlace name width type place value) fun draft reg =>
      reg < draft.vregs.size ∧
        draft.info reg = { name, width, signed := type.isSigned, fixed := some place } := by
  refine (Makes.newFixedReg name width type.isSigned place).bind fun reg mid _ made => ?_
  obtain ⟨temp, placed⟩ := made
  refine (Makes.emit (permits_of_owns (.inl temp.new) rfl rfl)).seq <|
    .pure fun leads _ => ⟨Nat.lt_of_lt_of_le temp.known leads.vregs_le, ?_⟩
  rw [leads.info_eq temp.known, placed]

/-- The register is kept for a value of a return. -/
def Receives (entry : (ReturnSlot × TypedReg) × Nat) (draft : Draft) (filled : Nat × VReg) : Prop :=
  filled.1 = entry.2 ∧ filled.2 < draft.vregs.size ∧ draft.info filled.2 = (returnCopy entry).1

theorem Receives.of_leads {entry : (ReturnSlot × TypedReg) × Nat} {draft after : Draft}
    {filled : Nat × VReg} (leads : draft.Leads after) (receives : Receives entry draft filled) :
    Receives entry after filled :=
  ⟨receives.1, Nat.lt_of_lt_of_le receives.2.1 leads.vregs_le,
    (leads.info_eq receives.2.1).trans receives.2.2⟩

theorem givesBack_of_receives {sig : Signature} {vals : List TypedReg} {draft : Draft}
    {filled : List (Nat × VReg)} (returning : sig.noReturn = false)
    (arity : vals.length = sig.returns.length)
    (receives : List.Forall₂ (Receives · draft) (returnEntries sig.returns vals) filled) :
    sig.GivesBack draft.vregs ((inOrder sig.returns.length filled).map (·.getD 0)) := by
  refine ⟨returning, ?_⟩
  rw [← length_map fun slot : ReturnSlot => (some slot.location, slot.width)]
  refine inOrder_map 0 (fun {idx reg} mem => ?_) fun idx inside => ?_
  · obtain ⟨pos, found⟩ := List.mem_iff_getElem?.mp mem
    obtain ⟨entry, entry_at, rfl, -, info_eq⟩ := forall₂_getElem? receives.flip found
    have slot_at := (mem_returnEntries (mem_of_getElem? entry_at)).1
    change draft.vregs.getD reg {} = _ at info_eq
    rw [info_eq, List.getElem?_map, slot_at]
    rfl
  · rw [length_map] at inside
    obtain ⟨entry, mem, rfl⟩ := exists_returnEntry (arity ▸ inside) inside
    obtain ⟨pos, entry_at⟩ := List.mem_iff_getElem?.mp mem
    obtain ⟨found, found_at, same, -⟩ := forall₂_getElem? receives entry_at
    exact ⟨found.2, same ▸ mem_of_getElem? found_at⟩

theorem makes_returnValues (vals : List TypedReg) : piece.Lays due start (returnValues vals) := by
  refine .read rfl fun _ => .ite (fun _ => .fail nofun) fun returning =>
    .ite (fun _ => .fail nofun) fun arity => ?_
  dsimp only
  split
  · exact .fail nofun
  · refine (Makes.mapEach Receives (fun entry _ => (makes_fillPlace ..).bind fun _ _ _ filled =>
      .pure fun leads _ => .of_leads leads ⟨rfl, filled⟩) .of_leads).bind
        fun filled mid _ receives => ?_
    refine .modify fun leads built => built.terminate fun regs same => .inr ?_
    cases same
    exact givesBack_of_receives (Bool.not_eq_true _ ▸ returning) (not_not.mp arity)
      (receives.imp fun _ _ => .of_leads leads)

theorem makes_pushArguments (callee : Signature) (args : List TypedReg) :
    piece.Lays due start (pushArguments callee args) := by
  refine .forM fun ⟨param, argument⟩ _ => ?_
  cases place_eq : param.place with
  | stack =>
    simp only [place_eq]
    exact .emit ⟨.plain rfl, fun _ mem => nomatch mem⟩
  | bound =>
    simp only [place_eq]
    exact .done

/-- The register is kept for a parameter. -/
def Fills (draft : Draft) (callee : Signature) (register : VReg) : Prop :=
  register < draft.vregs.size ∧
    ∃ param ∈ callee.params, (draft.info register).fixed = some param.location

theorem Fills.of_leads {draft after : Draft} {reg : VReg} (fills : Fills draft callee reg)
    (leads : draft.Leads after) : Fills after callee reg :=
  ⟨Nat.lt_of_lt_of_le fills.1 leads.vregs_le, leads.info_eq fills.1 ▸ fills.2⟩

theorem makes_fillArguments (callee : Signature) (args : List TypedReg) :
    piece.Makes due start (fillArguments callee args) fun draft fixed =>
      ∀ reg, some reg ∈ fixed → Fills draft callee reg := by
  refine (Makes.mapM (fun draft (entry : Nat × VReg) => Fills draft callee entry.2)
    (fun entry mem => ?_) fun leads fills => fills.of_leads leads).bind
    fun filled mid _ fills => .pure fun leads _ reg mem => ?_
  · have listed := (mem_filter.mp (mem_fillOrder.mp mem)).1
    have zipped := of_mem_zip (fst_mem_of_mem_zipIdx listed)
    exact (makes_fillPlace ..).bind fun _ _ _ placed => .pure fun leads _ =>
      Fills.of_leads ⟨placed.1, entry.1.1, zipped.1, congrArg VRegInfo.fixed placed.2⟩ leads
  · obtain ⟨idx, -, found⟩ := mem_map.mp mem
    obtain ⟨before, rest, filled_eq, -⟩ := lookup_eq_some_iff.mp found
    exact (fills (idx, reg) (filled_eq ▸ by simp)).of_leads leads

/-- The values that a call leaves are of the types of its convention. -/
def Returns (draft : Draft) (pending : List String) (callee : Signature)
    (results : List TypedReg) : Prop :=
  ∀ result ∈ results, draft.Gives pending false result ∧
    (result.register = 0 ∨ ∃ slot ∈ callee.returns, slot.type = result.type)

theorem makes_emptyResults (callee : Signature) {fixed : List VReg} :
    piece.Makes due start (emptyResults callee fixed) fun draft results =>
      Returns draft due callee results := by
  refine (Makes.mapM (fun draft (entry : Nat × TypedReg) => draft.Gives due false entry.2 ∧
      ∃ slot ∈ callee.returns, slot.type = entry.2.type) (fun entry mem => ?_)
    fun leads gives => gives.imp_left (·.of_leads leads)).bind fun copied mid _ gives => ?_
  · refine .define rfl rfl fun _ _ _ temp => .pure fun leads _ =>
      ⟨Temp.value (temp.of_leads leads) due, entry.1.1, ?_, rfl⟩
    have listed := mem_fillOrder.mp (mem_reverse.mp mem)
    grind
  · refine .pure fun leads built res mem => ?_
    obtain ⟨found, found_mem, rfl⟩ := mem_map.mp mem
    obtain ⟨idx, -, found_eq⟩ := mem_map.mp found_mem
    cases found with
    | none => exact ⟨.nothing built.sound rfl, .inl rfl⟩
    | some value =>
      obtain ⟨before, rest, copied_eq, -⟩ := lookup_eq_some_iff.mp found_eq
      obtain ⟨given, listed⟩ := gives (idx, value) (copied_eq ▸ mem_append_right _
        (.head _))
      exact ⟨given.of_leads leads, .inr listed⟩

theorem makes_callWith {make : List (Option VReg) → List VReg → Action}
    (allowed : ∀ {draft : Draft} {fixed results},
      (∀ reg, some reg ∈ fixed → Fills draft callee reg) →
      piece.context.Allows piece.signature draft.vregs (make fixed results))
    (defs : ∀ fixed results, (make fixed results).defs = results) {args : List TypedReg} :
    piece.Makes due start (callWith callee args make) fun draft results =>
      Returns draft due callee results := by
  refine (makes_pushArguments callee args).seq ?_
  refine (makes_fillArguments callee args).bind fun fixed _ _ fills => ?_
  refine (Makes.mapM (fun _ reg => piece.base.vregs.size ≤ reg) (fun slot _ => ?_)
    fun _ new => new).bind fun results mid earlier new => ?_
  · exact (Makes.newRegWith _).imp fun _ temp => temp.new
  · refine (Makes.emitFrom fun leads => ⟨allowed fun reg mem => ?_, fun reg mem =>
      .inl ?_⟩).seq <| makes_emptyResults callee
    · exact (fills reg mem).of_leads (earlier.trans leads)
    · simp_all

theorem makes_callDirect (allowed : ∀ details : DirectCall, details.function = callee.name →
      details.preservesScratch = callee.preserveScratch →
      ∀ vregs, piece.context.Allows piece.signature vregs (.call details))
    (args : List TypedReg) :
    piece.Makes due start (callDirect callee args) fun draft results =>
      Returns draft due callee results :=
  makes_callWith (fun _ => allowed _ rfl rfl _) (fun _ _ => rfl)

def LowersAll (piece : Piece) (codes : List ExprCode) : Prop :=
  ∀ code ∈ codes, ∃ routine, piece.Lowers routine code

theorem makes_argumentValues {callee : String} (params : List ParamSlot)
    (lowers : piece.LowersAll args) : piece.Lays due start (argumentValues callee params args) := by
  induction args generalizing params with
  | nil => cases params <;> exact .done
  | cons argument rest ih =>
    obtain ⟨⟨routine, first⟩, others⟩ := forall_mem_cons.mp lowers
    cases params with
    | nil => exact .done
    | cons param params =>
      refine (Makes.whilePending (first.value _ start _)).andThen fun value => ?_
      exact .ite (fun _ => .done) fun _ => .guard nofun <| (ih params others).andThen fun _ => .done

theorem makes_passArguments {params : List ParamSlot} (lowers : piece.LowersAll args)
    (may : args.length ≠ params.length → ∀ message,
      piece.MayFail (.report (DiagnosticCode.arity.report piece.signature.name message))) :
    piece.Lays due start (passArguments callee params args) :=
  .ite (fun differs => .refuse (may differs _)) fun _ => makes_argumentValues params lowers

theorem makes_callFunction (listed : .expression (.call name exprs) ∈ piece.nodes)
    (lowers : piece.LowersAll (codeOfExprs exprs)) :
    piece.MakesValues due start (callFunction name (codeOfExprs exprs)) := by
  have refuses {failure : LoweringFailure} (breaks : ∀ callee,
      ¬piece.signature.MayCall callee exprs.length ∨
        piece.context.signatures.get? name ≠ some callee) : piece.MayFail failure := by
    refine .inr ⟨_, listed, .direct fun checked => ?_⟩
    obtain ⟨callee, found, may⟩ := checkDirectCall_eq_ok_iff.mp checked
    exact (breaks callee).elim (absurd may) (absurd found)
  refine .read rfl fun _ => ?_
  split
  · next absent => exact .refuse (refuses fun _ => .inr (absent ▸ nofun))
  · next callee found =>
    have refuses {failure : LoweringFailure}
        (breaks : ¬piece.signature.MayCall callee exprs.length) : piece.MayFail failure := by
      refine refuses fun other => or_iff_not_imp_right.mpr fun same => ?_
      rwa [← Option.some.inj (found.symm.trans (not_not.mp same))]
    refine .ite (fun handles => .refuse (refuses fun may => ?_)) fun called => .check
      (fun problem refused => refuses fun may => ?_) fun checked => ?_
    · exact absurd handles (by rw [may.callable]; nofun)
    · exact nomatch refused.symm.trans (checkCall_eq_ok_iff.mpr ⟨may.near, may.scratch⟩)
    refine (makes_passArguments lowers fun differs _ => refuses fun may =>
      differs ((length_codeOfExprs exprs).trans may.arity)).andThen fun passed => ?_
    cases passed with
    | none => exact .pure fun _ _ _ mem => nomatch mem
    | some vals =>
      exact (makes_callDirect (fun _ fn scratch _ =>
        .direct found checked fn scratch) _).imp fun _ returns _ mem => (returns _ mem).1

theorem makes_callMethod {receiver : TypedReg} (lowers : piece.LowersAll args)
    (may : args.length ≠ callee.params.tail.length → ∀ message,
      piece.MayFail (.report (DiagnosticCode.arity.report piece.signature.name message)))
    {make : List TypedReg → Lower (List TypedReg)}
    (makes : ∀ vals, piece.MakesValues due start (make vals)) :
    piece.MakesValues due start (callMethod callee receiver args make) := by
  unfold callMethod
  split
  · exact .throw (.inl trivial)
  · next params given =>
    rw [given] at may
    refine (makes_passArguments lowers may).andThen fun passed => ?_
    cases passed with
    | none => exact .pure fun _ _ _ mem => nomatch mem
    | some vals => exact makes _

theorem reads_checkEntries {table : DispatchTable} : Lower.Reads true (checkEntries table) := by
  refine .read rfl fun around => ?_
  induction table.entries with
  | nil => exact .pure ()
  | cons entry rest ih =>
    rw [List.forM]
    refine .bind ?_ fun _ => ih
    split
    · exact .pure ()
    · exact .check _

theorem reads_tableConvention (table : DispatchTable) (traitName : String) (method : MethodDecl) :
    Lower.Reads true (tableConvention table traitName method) :=
  .read rfl fun _ => .theUnit rfl fun _ => .check _

theorem makes_callTraitMethod {routine : Bool} {object : Expr} {traitName method : String}
    (listed : .expression (.method object traitName method exprs) ∈ piece.nodes)
    (receives : piece.Lowers routine object.code) (lowers : piece.LowersAll (codeOfExprs exprs)) :
    piece.MakesValues due start (callTraitMethod object.code traitName method (codeOfExprs exprs)) := by
  have may {failure : LoweringFailure} (refuses : piece.context.RefusesMethod piece.signature
      traitName method (codeOfExprs exprs).length failure) : piece.MayFail failure :=
    .inr ⟨_, listed, .method (length_codeOfExprs exprs ▸ refuses)⟩
  refine (Makes.whilePending (receives.value _ start _)).andThen fun receiver => ?_
  refine .ite (fun _ => .pure fun _ _ _ mem => nomatch mem) fun _ => .guard nofun ?_
  refine .read rfl fun _ => ?_
  split
  · exact .fail nofun
  · next trait found =>
    obtain rfl : trait.name = traitName := by simpa using List.find?_some found
    split
    · exact .fail nofun
    · next declared listed =>
      obtain rfl : declared.name = method := by simpa using List.find?_some listed
      refine .ite (fun _ => .guard nofun <| .read rfl fun _ => ?_) fun _ =>
        .read rfl fun _ => ?_
      · split
        · exact .fail nofun
        · next table planned =>
          refine (Makes.finds (reads_tableConvention ..) fun _ failed =>
            may (.convention planned failed)).bind fun convention _ _ resolved => ?_
          refine (Makes.finds reads_checkEntries fun _ failed => may (.entry planned failed)).bind
            fun _ _ _ checked => makes_callMethod lowers
              (fun differs _ => may (.arity (.inr ⟨_, _, resolved⟩) differs)) fun vals => ?_
          refine (makes_callWith (fun fills =>
            .table ⟨trait, declared, convention, rfl, found,
              mem_reverse.mp (mem_of_find?_eq_some listed), planned, resolved, checked,
              fun reg mem => fills reg ?_⟩)
            (fun _ _ => rfl)).imp fun _ returns _ mem => (returns _ mem).1
          grind
      · dsimp only
        split
        · next absent => exact .refuse (may (.missing absent))
        · next callee found =>
          refine .check (fun _ refused => may (.implementation found refused)) fun checked =>
            makes_callMethod lowers (fun differs _ => may (.arity (.inl ⟨_, found⟩) differs))
              fun vals => ?_
          exact (makes_callDirect (fun _ fn scratch _ =>
            .direct found checked fn scratch) _).imp fun _ returns _ mem => (returns _ mem).1

theorem lowers_ofResults (src : Expr) {results : Lower (List TypedReg)}
    (makes : ∀ due start, piece.MakesValues due start results) :
    piece.Lowers false (.ofResults src results) := by
  have first : piece.Values false fun _ => firstResult results := by
    intro due start want
    refine (makes due start).bind fun vals mid _ gives => .reads .isDead fun dead => ?_
    refine .ite (fun _ => .pure fun _ built => .nothing built.sound rfl) fun _ =>
      .pure fun leads built => ?_
    cases vals with
    | nil => exact .nothing built.sound rfl
    | cons value rest => exact (gives value (.head _)).of_leads leads
  exact { lowers_ofValue src first with results := makes }

end Piece

end Backend65816
