import Backend65816.Proofs.AddedCode

/-!
# Code of values and of simple expressions

What the code of an expression makes in each of its uses. The value of a name is a register of its
own only where no later operand stores to the name.
-/

namespace Backend65816

open Draft.WellFormed Lower

variable {routine : Bool}

namespace Piece

variable {piece : Piece} {due : List String} {start : Draft}

variable {meeting : Meeting}

abbrev Values (piece : Piece) (routine : Bool) (value : Ty → Lower TypedReg) : Prop :=
  ∀ pending start want, piece.MakesValue pending start routine (value want)

/-- Code of an expression that is code of the piece in each of its uses. -/
structure Lowers (piece : Piece) (routine : Bool) (code : ExprCode) : Prop where
  value : piece.Values routine code.value
  branch : ∀ pending start yes no, piece.Lays pending start (code.branch yes no)
  results : ∀ pending start, piece.MakesValues pending start code.results
  assign : ∀ pending start stored value, (∀ name, code.source = .name name → name ∈ piece.names) →
    (∀ start want, piece.Lays pending start (value want)) →
    piece.Lays pending start (code.assign stored value)

/-! ## Values -/

theorem makes_constant (num : Int) (type : Ty) :
    piece.MakesValue due start false (constant num type) :=
  .reads (.widthOf type) fun _ => .compute rfl rfl

section

variable (name : String)

theorem makes_findName : piece.Makes due start (findName name) fun draft place =>
      (∀ value, place = .inReg value → (name ∉ due → draft.Gives due false value) ∧
        (name ∈ piece.names → piece.Owns value.register)) ∧
      ∀ global, place = .inMemory global → piece.context.unit.findGlobal? name = some global := by
  refine ⟨fun depth draft leads built => .step (fun _ => rfl) ?_⟩
  split
  · next value found =>
    refine .pure ⟨built, .refl draft, fun target same => ?_, nofun⟩
    cases same
    refine ⟨fun kept => ?_, fun mem => ?_⟩
    · obtain ⟨-, info, info_eq, fits⟩ := typed_of_find? built.sound found
      refine ⟨(Array.getElem?_eq_some_iff.mp info_eq).1,
        not_mutable_of_find? built.sound found kept, fun _ => .inl ?_⟩
      exact (congrArg VRegInfo.signed (Draft.info_of_getElem? info_eq)).trans fits
    · obtain ⟨scope, scope_mem, entry_mem⟩ := exists_entry found
      exact built.owns_of_mutable (.inr ⟨scope, scope_mem, _, entry_mem, mem, rfl⟩)
  · refine .read (fun _ _ => rfl) ?_
    split
    · next global found =>
      exact .pure ⟨built, .refl draft, nofun, fun _ same => by cases same; exact found⟩
    · exact ⟨fun _ _ => rfl, .inl nofun⟩

theorem makes_readName : piece.MakesValue due start false (readName name) := by
  refine (makes_findName name).bind fun place mid _ found => ?_
  cases place with
  | inReg value =>
    refine .read rfl fun _ => .ite (fun _ => ?_) fun kept => ?_
    · exact .reads (.regInfo _) fun _ => .compute rfl rfl
    · exact .pure fun leads _ => ((found.1 value rfl).1 kept).of_leads leads
  | inMemory global =>
    refine (Makes.newTemp name global.type).bind fun _ _ _ temp => .read rfl fun _ => ?_
    refine (Makes.emit ⟨.global (found.2 global rfl) rfl, fun _ mem => ?_⟩).seq <|
      .pure fun leads _ => (temp.of_leads leads).value due
    exact .inl (List.mem_singleton.mp mem ▸ temp.new)

theorem makes_biasReg {reg : VReg} : piece.Lays due start (biasReg reg) :=
  .reads (.regInfo reg) fun _ => .define rfl rfl fun _ _ _ _ =>
    .done

theorem makes_biasValue (width : Width) (value : Value) :
    piece.Lays due start (biasValue width value) := by
  cases value with
  | imm => exact .done
  | reg reg => exact makes_biasReg.andThen fun _ => .done

theorem makes_comparable (cond : Cond) (left : VReg) (right : Value) :
    piece.Lays due start (comparable cond left right) := by
  refine .reads (.regInfo left) fun info => ?_
  split
  · exact makes_biasReg.andThen fun _ => (makes_biasValue _ right).andThen fun _ =>
      .done
  · exact .done

theorem makes_branchOn (cond : Cond) (left : VReg) (right : Value) (yes no : BlockId) :
    piece.Lays due start (branchOn cond left right yes no) :=
  (makes_comparable cond left right).andThen fun _ => .terminate nofun

/-! ## Meetings -/

/-- The value of the ways that met so far is in a register that is kept for it. -/
def Meets (piece : Piece) (draft : Draft) (meeting : Meeting) : Prop :=
  ∀ outcome, meeting.outcome = some outcome → outcome.register = 0 ∨
    piece.Temp draft outcome.register outcome.type.isSigned

theorem Meets.of_leads {draft after : Draft} (meets : piece.Meets draft meeting)
    (leads : draft.Leads after) : piece.Meets after meeting :=
  fun res known => (meets res known).imp_right fun temp => temp.of_leads leads

theorem makes_start {want : Ty} :
    piece.Makes due start (Meeting.start name want) fun draft meeting =>
      piece.Meets draft meeting :=
  (Makes.newBlock name).andThen fun _ => .pure fun _ _ _ known => nomatch known

end

section

variable (meets : piece.Meets start meeting)
include meets

theorem makes_agree (value : TypedReg) :
    piece.Makes due start (meeting.agree value) fun draft res =>
      res.register = 0 ∨ piece.Temp draft res.register res.type.isSigned := by
  unfold Meeting.agree
  cases known : meeting.outcome with
  | none =>
    refine .ite (fun _ => .pure fun _ _ => .inl rfl) fun _ => ?_
    exact (Makes.newTemp "" value.type).bind fun reg mid _ temp =>
      .pure fun leads _ => .inr (temp.of_leads leads)
  | some res =>
    exact .ite (fun _ => .pure fun leads _ => meets.of_leads leads res known) fun _ => .fail nofun

theorem makes_add {value : TypedReg} :
    piece.Makes due start (meeting.add value) fun draft later => piece.Meets draft later := by
  refine .reads .isDead fun dead => .ite (fun _ => .pure fun leads _ => meets.of_leads leads)
    fun _ => ?_
  refine (makes_agree meets value).bind fun res mid _ placed => ?_
  have finish : piece.Makes due mid (do
      jump meeting.block
      return { meeting with outcome := some res }) fun draft later =>
        piece.Meets draft later := by
    refine (Makes.jump _).seq <| .pure fun leads _ other known => ?_
    cases known
    exact placed.imp_right fun temp => temp.of_leads leads
  refine .ite (fun nonzero => ?_) fun _ => finish
  have temp := placed.resolve_left nonzero
  exact (Makes.emit (permits_of_owns (.inl temp.new) rfl rfl)).seq finish

theorem makes_finish : piece.MakesValue due start false meeting.finish := by
  refine (Makes.enter meeting.block).seq ?_
  cases known : meeting.outcome with
  | none =>
    exact Makes.markUnreached.seq <| .pure fun _ built => .nothing built.sound rfl
  | some res =>
    refine .pure fun leads built => ?_
    rcases meets.of_leads leads res known with none | temp
    · exact .nothing built.sound none
    · exact temp.value due

end

/-! ## Simple expressions -/

section

variable {value : Ty → Lower TypedReg}

theorem makes_branchOnValue (vals : piece.Values routine value) (yes no : BlockId) :
    piece.Lays due start (branchOnValue value yes no) := by
  refine (vals due start .bool).andThen fun cond => ?_
  exact .ite (fun _ => .done) fun _ =>
    .guard nofun <| makes_branchOn ..

theorem lowers_ofValue (src : Expr) (vals : piece.Values routine value) :
    piece.Lowers routine (.ofValue src value) where
  value := vals
  branch _ _ yes no := makes_branchOnValue vals yes no
  results _ _ := .fail nofun
  assign _ _ _ _ _ _ := .fail nofun

theorem lowers_int (literal : Int) (type : Ty) : piece.Lowers false (.int literal type) :=
  lowers_ofValue _ fun _ _ _ => .reads (.checkLiteral ..) fun _ => makes_constant ..

theorem lowers_bool (literal : Bool) : piece.Lowers false (.bool literal) :=
  { lowers_ofValue (.bool literal) fun _ _ _ => makes_constant .. with
    branch := fun _ _ _ _ => .terminate (by split <;> nofun) }

theorem makes_assignName {name : String} (mem : name ∈ piece.names)
    (vals : ∀ start want, piece.Lays due start (value want)) :
    piece.Lays due start (ExprCode.assignName name value) := by
  refine (makes_findName name).bind fun place mid _ found => ?_
  refine (vals mid place.type).andThen fun stored => ?_
  refine .ite (fun _ => .done) fun _ => .guard nofun ?_
  cases place with
  | inMemory global => exact .read rfl fun _ => .emit ⟨.global (found.2 global rfl) rfl, nofun⟩
  | inReg target => exact .emit (permits_of_owns ((found.1 target rfl).2 mem) rfl rfl)

end

theorem lowers_name (name : String) : piece.Lowers false (.name name) :=
  { lowers_ofValue (.name name) fun _ _ _ => makes_readName name with
    assign := fun _ _ _ _ named vals => makes_assignName (named name rfl) vals }

theorem lowers_variant (enum variant : String) : piece.Lowers false (.variant enum variant) := by
  refine lowers_ofValue _ fun _ _ _ => .reads ?_ fun _ => makes_constant ..
  refine .theUnit rfl fun unit => .ite (.fail nofun) ?_
  cases unit.variant? enum variant with
  | none => exact .fail nofun
  | some value => exact .pure value

section Fields

variable {object : ExprCode}

section

variable (lowers : piece.Lowers routine object)
include lowers

theorem makes_fieldSlot (field : String) :
    piece.Makes due start (object.fieldSlot field) fun draft found =>
      ∃ type, draft.Gives due routine { register := found.1, type } := by
  refine (lowers.value due start _).bind fun pointer mid _ gives => ?_
  refine .guard nofun <| .read rfl fun _ => ?_
  split
  · exact .fail nofun
  · split
    · exact .fail nofun
    · exact .pure fun leads _ => ⟨_, gives.of_leads leads⟩

theorem lowers_field (field : String) : piece.Lowers false (.field object field) :=
  { lowers_ofValue (.field object.source field) fun _ _ _ =>
      (makes_fieldSlot lowers field).andThen fun _ => .compute rfl rfl with
    assign := by
      intro due start stored value _ vals
      refine (Makes.whilePending (makes_fieldSlot lowers field)).andThen fun found => ?_
      refine (vals start _).andThen fun content => ?_
      exact .ite (fun _ => .done) fun _ => .guard nofun <| .emit ⟨.plain rfl, nofun⟩ }

theorem makes_loadTag :
    piece.Makes due start object.loadTag fun draft tag => piece.Temp draft tag false := by
  refine (lowers.value due start _).andThen fun pointer => .guard nofun ?_
  exact .define rfl rfl fun _ _ _ temp => .pure fun leads _ =>
    temp.of_leads leads

theorem lowers_tagOf : piece.Lowers false (.tagOf object) :=
  lowers_ofValue _ fun due _ _ => (makes_loadTag lowers).bind fun _ _ _ temp =>
    .pure fun leads _ => Temp.value (temp.of_leads leads) due

theorem lowers_isType {typeName : String} : piece.Lowers false (.isType object typeName) := by
  refine lowers_ofValue _ fun due start want => (makes_loadTag lowers).andThen fun tag => ?_
  refine .read rfl fun _ => .guard nofun ?_
  split
  · exact makes_constant ..
  · exact .define rfl rfl fun _ _ _ temp => .pure fun leads _ =>
      Temp.value (temp.of_leads leads) due

end

end Fields

end Piece

end Backend65816
