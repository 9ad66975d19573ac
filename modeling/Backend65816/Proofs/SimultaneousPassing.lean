import Backend65816.Proofs.LoweringReturns

/-!
# Passing of values

Arguments and return values are moved to the places of a convention one after the other. A register
that is fixed to a place is read and written there, so filling a place may change a value that is
still to be moved. Where no place shares a byte with a place or a value that comes later in the
order of filling, every place ends up with what its value was before the first move.
-/

namespace Backend65816

open List

variable {draft : Draft} {bound : Nat}

variable {contents : Contents} {copies : List (VRegInfo × VReg)} {callee : Signature}
  {args : List TypedReg}

/-! ## Bytes of registers -/

/-- A byte that code can reach. -/
inductive Cell where
  | register (register : Reg) (byte : Nat)
  | scratch (byte : Nat)
  | frame (byte : Nat)
  | address (address : Int)
  | symbol (name : String) (byte : Nat)
  | argument (byte : Nat)
  | own (register : VReg) (byte : Nat)
  | lost (byte : Nat)
deriving DecidableEq, Repr

def Loc.cell : Loc → Nat → Cell
  | .nowhere, byte => .lost byte
  | .reg .a, 0 => .register .a 0
  | .reg .a, byte + 1 => .register .b byte
  | .reg register, byte => .register register byte
  | .scratch offset, byte => .scratch (offset + byte)
  | .stack offset, byte => .frame (offset + byte)
  | .fixed address _, byte => .address (address + byte)
  | .symbol name, byte => .symbol name byte
  | .argument offset, byte => .argument (offset + byte)

theorem Loc.cell_injective (place : Loc) : Function.Injective place.cell := by
  intro first second same
  cases place with
  | reg reg =>
    cases reg <;> cases first <;> cases second <;> simp_all [cell]
  | _ => simp_all [cell]

def VRegInfo.cell (info : VRegInfo) (register : VReg) (byte : Nat) : Cell :=
  match info.fixed with
  | some place => place.cell byte
  | none => .own register byte

theorem VRegInfo.cell_injective (info : VRegInfo) (reg : VReg) :
    Function.Injective (info.cell reg) := by
  unfold cell
  cases info.fixed with
  | some place => exact place.cell_injective
  | none => exact fun _ _ same => (Cell.own.inj same).2

def Apart (first : Nat → Cell) (width : Width) (second : Nat → Cell) (width' : Width) : Prop :=
  ∀ byte < width.bytes, ∀ byte' < width'.bytes, first byte ≠ second byte'

instance (first : Nat → Cell) (width : Width) (second : Nat → Cell) (width' : Width) :
    Decidable (Apart first width second width') :=
  inferInstanceAs (Decidable (∀ byte < width.bytes, ∀ byte' < width'.bytes, _))

/-- Contents of all bytes, and the bytes that were pushed, the last one first. -/
structure Contents where
  bytes : Cell → BitVec 8
  pushed : List (BitVec 8)

namespace Contents

def read (contents : Contents) (place : Nat → Cell) (width : Width) : List (BitVec 8) :=
  (range width.bytes).map fun byte => contents.bytes (place byte)

def copy (contents : Contents) (target source : Nat → Cell) (width : Width) : Contents :=
  { contents with
    bytes := fun cell =>
      match (range width.bytes).find? fun byte => target byte = cell with
      | some byte => contents.bytes (source byte)
      | none => contents.bytes cell }

variable {target src place : Nat → Cell} {width width' : Width}

theorem read_copy_of_apart (apart : Apart target width place width') :
    (contents.copy target src width).read place width' = contents.read place width' := by
  refine map_congr_left fun byte' mem => ?_
  have apart := fun byte below => apart byte below byte' (mem_range.mp mem)
  grind [copy]

theorem read_copy (injective : Function.Injective target) :
    (contents.copy target src width).read target width = contents.read src width := by
  refine map_congr_left fun byte mem => ?_
  grind [copy]

end Contents

/-! ## Moves -/

namespace Draft

def cell (draft : Draft) (register : VReg) : Nat → Cell := (draft.info register).cell register

def pass (draft : Draft) (contents : Contents) : Action → Contents
  | .move target source =>
    contents.copy (draft.cell target) (draft.cell source) (draft.info target).width
  | .push (.reg source) =>
    { contents with
      pushed := contents.read (draft.cell source) (draft.info source).width ++ contents.pushed }
  | _ => contents

/-- What actions that pass values do one after the other. -/
def passAll (draft : Draft) (code : List Action) (contents : Contents) : Contents :=
  code.foldl draft.pass contents

def movesFrom (first : VReg) : List (VRegInfo × VReg) → List Action
  | [] => []
  | (_, source) :: rest => .move first source :: movesFrom (first + 1) rest

end Draft

def Contents.moveAll (contents : Contents) (cell : VReg → Nat → Cell)
    (copies : List (VRegInfo × VReg)) : Contents :=
  copies.foldl
    (fun contents copy => contents.copy (copy.1.cell 0) (cell copy.2) copy.1.width) contents

/-- No place shares a byte with a place, or with a value, that comes after it. -/
def Clear (cell : VReg → Nat → Cell) (copies : List (VRegInfo × VReg)) : Prop :=
  copies.Pairwise fun early late =>
    Apart (early.1.cell 0) early.1.width (late.1.cell 0) late.1.width ∧
      Apart (early.1.cell 0) early.1.width (cell late.2) late.1.width

instance (cell : VReg → Nat → Cell) (copies : List (VRegInfo × VReg)) :
    Decidable (Clear cell copies) :=
  inferInstanceAs (Decidable (List.Pairwise _ copies))

section

variable {cell : VReg → Nat → Cell}

theorem Contents.read_moveAll_of_apart {place : Nat → Cell} {width : Width}
    (apart : ∀ copy ∈ copies, Apart place width (copy.1.cell 0) copy.1.width) :
    (contents.moveAll cell copies).read place width = contents.read place width := by
  induction copies generalizing contents with
  | nil => rfl
  | cons copy rest ih =>
    refine (ih fun copy mem => apart copy (.tail _ mem)).trans ?_
    exact read_copy_of_apart fun byte below byte' below' =>
      (apart copy (.head _) byte' below' byte below).symm

theorem Contents.moveAll_pushed (copies : List (VRegInfo × VReg)) :
    (contents.moveAll cell copies).pushed = contents.pushed := by
  induction copies generalizing contents with
  | nil => rfl
  | cons copy rest ih => exact ih

/-- After moves that are clear of each other every place holds what its value was before the first
of them. -/
theorem Contents.read_moveAll (clear : Clear cell copies) :
    ∀ copy ∈ copies, (contents.moveAll cell copies).read (copy.1.cell 0) copy.1.width =
      contents.read (cell copy.2) copy.1.width := by
  induction copies generalizing contents with
  | nil => nofun
  | cons first rest ih =>
    obtain ⟨apart, clear⟩ := pairwise_cons.mp clear
    intro copy mem
    rcases mem_cons.mp mem with rfl | mem
    · refine (read_moveAll_of_apart fun other mem => (apart other mem).1).trans ?_
      exact read_copy (copy.1.cell_injective 0)
    · exact (ih clear copy mem).trans (read_copy_of_apart (apart copy mem).2)

end

namespace Draft

theorem copyAll_vregs (draft : Draft) (copies : List (VRegInfo × VReg)) :
    (draft.copyAll copies).vregs = draft.vregs ++ (copies.map Prod.fst).toArray := by
  induction copies generalizing draft with
  | nil => simp [copyAll]
  | cons copy rest ih => simp [copyAll, ih]

theorem info_copyAll_of_lt {reg : VReg} (old : reg < draft.vregs.size)
    (copies : List (VRegInfo × VReg)) : (draft.copyAll copies).info reg = draft.info reg := by
  simp_all [info, copyAll_vregs, Array.getElem?_append_left]

theorem info_copyAll {idx : Nat} {copy : VRegInfo × VReg} (found : copies[idx]? = some copy) :
    (draft.copyAll copies).info (draft.vregs.size + idx) = copy.1 := by
  simp_all [info, copyAll_vregs, Array.getElem?_append_right]

theorem passAll_movesFrom {after : Draft} {cell : VReg → Nat → Cell} {first : VReg}
    (contents : Contents)
    (infos : ∀ {idx copy}, copies[idx]? = some copy → after.info (first + idx) = copy.1)
    (placed : ∀ copy ∈ copies, copy.1.fixed.isSome ∧ after.cell copy.2 = cell copy.2) :
    after.passAll (movesFrom first copies) contents = contents.moveAll cell copies := by
  induction copies generalizing first contents with
  | nil => rfl
  | cons copy rest ih =>
    obtain ⟨fixed, source_eq⟩ := placed copy (.head _)
    obtain ⟨place, fixed⟩ := Option.isSome_iff_exists.mp fixed
    have info_eq : after.info first = copy.1 := @infos 0 copy rfl
    have target_eq : after.cell first = copy.1.cell 0 := by
      funext byte
      rw [Draft.cell, info_eq, VRegInfo.cell, VRegInfo.cell, fixed]
    rw [movesFrom, passAll, foldl_cons, pass, target_eq, source_eq, info_eq]
    refine ih _ (fun {idx other} found => ?_) fun copy mem =>
      placed copy (.tail _ mem)
    rw [Nat.add_right_comm]
    exact @infos (idx + 1) other found

def emitAll (draft : Draft) (code : List Action) : Draft := code.foldl emit draft

variable (draft)

theorem modify_addReg (info : VRegInfo) (change : BasicBlock → BasicBlock) :
    (draft.addReg info).reopen.modifyCurrent change =
      (draft.reopen.modifyCurrent change).addReg info := by
  change (if draft.isClosed then _ else _ : Draft).modifyCurrent _ =
    addReg ((if draft.isClosed then _ else _ : Draft).modifyCurrent _) info
  split <;> rfl

theorem emitAll_addReg (info : VRegInfo) (code : List Action) :
    (draft.addReg info).emitAll code = (draft.emitAll code).addReg info := by
  induction code generalizing draft with
  | nil => rfl
  | cons action rest ih =>
    simp_all [emitAll, emit, modify_addReg]

theorem copyAll_eq (copies : List (VRegInfo × VReg)) : draft.copyAll copies =
      (copies.map Prod.fst).foldl addReg (draft.emitAll (movesFrom draft.vregs.size copies)) := by
  induction copies generalizing draft with
  | nil => rfl
  | cons copy rest ih =>
    have added : draft.addResult copy.1 (.move draft.vregs.size copy.2) =
        (draft.emit (.move draft.vregs.size copy.2)).addReg copy.1 := draft.modify_addReg _ _
    rw [copyAll, ih, addResult_size, added, emitAll_addReg]
    rfl

end Draft

/-! ## Arguments and return values -/

/-- The register of an argument that goes on the stack. -/
def pushed? (pair : ParamSlot × TypedReg) : Option VReg :=
  match pair.1.place with
  | .stack _ => some pair.2.register
  | .bound _ => none

def pushedRegisters (callee : Signature) (arguments : List TypedReg) : List VReg :=
  (callee.params.zip arguments).filterMap pushed?

def pushes (registers : List VReg) : List Action := registers.map fun source => .push (.reg source)

/-- Entries of the other arguments in the order of filling their places. -/
def argumentEntries (callee : Signature) (arguments : List TypedReg) :
    List ((ParamSlot × TypedReg) × Nat) :=
  fillOrder (fun entry => entry.1.1.location)
    ((callee.params.zip arguments).zipIdx.filter fun ((param, _), _) =>
      match param.place with
      | .stack _ => false
      | .bound _ => true)

def argumentCopy (entry : (ParamSlot × TypedReg) × Nat) : VRegInfo × VReg :=
  ({ name := entry.1.1.name, width := entry.1.1.width, signed := entry.1.1.type.isSigned
     fixed := some entry.1.1.location }, entry.1.2.register)

def argumentCopies (callee : Signature) (arguments : List TypedReg) : List (VRegInfo × VReg) :=
  (argumentEntries callee arguments).map argumentCopy

def returnCopies (returns : List ReturnSlot) (values : List TypedReg) : List (VRegInfo × VReg) :=
  (returnEntries returns values).map returnCopy

namespace Lower

variable {around : Surroundings} {after : Draft}

theorem emitAll_ok {α : Type} {steps : α → Lower Unit} {code : α → Option Action}
    (adds : ∀ item draft, steps item around draft = .ok ((), (code item).elim draft draft.emit))
    {items : List α} (ran : items.forM steps around draft = .ok ((), after)) :
    after = draft.emitAll (items.filterMap code) := by
  induction items generalizing draft with
  | nil =>
    cases ran
    rfl
  | cons item rest ih =>
    obtain ⟨_, mid, added, ran⟩ := bind_ok.mp ran
    rw [adds] at added
    cases added
    rw [filterMap_cons]
    cases code_eq : code item with
    | none =>
      grind
    | some action =>
      rw [code_eq] at ran
      exact ih ran

theorem pushArguments_ok (ran : pushArguments callee args around draft = .ok ((), after)) :
    after = draft.emitAll (pushes (pushedRegisters callee args)) := by
  rw [pushes, pushedRegisters, map_filterMap]
  refine emitAll_ok ?_ ran
  rintro ⟨⟨name, type, width, place⟩, argument⟩ draft
  cases place <;> rfl

theorem fillArguments_ok {fixed : List (Option VReg)}
    (ran : fillArguments callee args around draft = .ok (fixed, after)) :
    after = draft.copyAll (argumentCopies callee args) := by
  obtain ⟨filled, mid, copied, ran⟩ := bind_ok.mp ran
  cases ran
  exact (copyAll_ok argumentCopy
    (by rintro entry draft res after ran; cases ran; exact ⟨rfl, rfl⟩) copied).2

/-- What is left of a call after its arguments are passed. -/
theorem callWith_ok {make : List (Option VReg) → List VReg → Action} {taken : List TypedReg}
    (ran : callWith callee args make around draft = .ok (taken, after)) :
    ∃ fixed : List (Option VReg),
      (do let results ← callee.returns.mapM fun slot : ReturnSlot =>
            newFixedReg "ret" slot.width slot.type.isSigned slot.location
          emit (make fixed results)
          emptyResults callee results)
        around ((draft.emitAll (pushes (pushedRegisters callee args))).copyAll
          (argumentCopies callee args)) = .ok (taken, after) := by
  obtain ⟨_, mid, pushed, ran⟩ := bind_ok.mp ran
  obtain ⟨fixed, passed, filled, ran⟩ := bind_ok.mp ran
  rw [fillArguments_ok filled, pushArguments_ok pushed] at ran
  exact ⟨fixed, ran⟩

end Lower

namespace Draft

variable {after : Draft}

section

variable (draft)

theorem addRegs_blocks (infos : List VRegInfo) :
    (infos.foldl addReg draft).blocks = draft.blocks := by
  induction infos generalizing draft with
  | nil => rfl
  | cons info rest ih => exact ih (draft.addReg info)

theorem terminate_addRegs (infos : List VRegInfo) (term : Terminator) :
    (infos.foldl addReg draft).terminate term = infos.foldl addReg (draft.terminate term) := by
  induction infos generalizing draft with
  | nil => rfl
  | cons info rest ih =>
    rw [foldl_cons, ih, terminate, modify_addReg]
    rfl

theorem emitAll_vregs (code : List Action) : (draft.emitAll code).vregs = draft.vregs := by
  induction code generalizing draft with
  | nil => rfl
  | cons action rest ih => exact (ih (draft.emit action)).trans draft.emit_vregs

theorem passed_blocks (code : List Action) (copies : List (VRegInfo × VReg)) :
    ((draft.emitAll code).copyAll copies).blocks =
      (draft.emitAll (code ++ movesFrom draft.vregs.size copies)).blocks := by
  rw [copyAll_eq, addRegs_blocks, emitAll_vregs, emitAll, emitAll, emitAll, foldl_append]

end

theorem passAll_copyAll (vregs : after.vregs = (draft.copyAll copies).vregs)
    (placed : ∀ copy ∈ copies, copy.1.fixed.isSome ∧ copy.2 < draft.vregs.size)
    (contents : Contents) :
    after.passAll (movesFrom draft.vregs.size copies) contents =
      contents.moveAll draft.cell copies := by
  have info_eq (reg) : after.info reg = (draft.copyAll copies).info reg := by
    rw [info, info, vregs]
  refine passAll_movesFrom contents (fun found => (info_eq _).trans (info_copyAll found)) ?_
  grind [cell, info_copyAll_of_lt]

theorem passAll_pushes {regs : List VReg} (same : ∀ reg ∈ regs, after.info reg = draft.info reg)
    (contents : Contents) :
    after.passAll (pushes regs) contents =
      { contents with
        pushed := regs.reverse.flatMap (fun reg =>
          contents.read (draft.cell reg) (draft.info reg).width) ++ contents.pushed } := by
  induction regs generalizing contents with
  | nil => rfl
  | cons reg rest ih =>
    have later := ih (fun other mem => same other (.tail _ mem))
      (after.pass contents (.push (.reg reg)))
    refine later.trans ?_
    rw [reverse_cons, flatMap_append, flatMap_singleton, append_assoc, pass,
      cell, same reg (.head _)]
    rfl

end Draft

theorem mem_argumentCopies {param : ParamSlot} {argument : TypedReg} {place : Loc}
    (mem : (param, argument) ∈ callee.params.zip args) (bound : param.place = .bound place) :
    ({ name := param.name, width := param.width, signed := param.type.isSigned,
       fixed := some place }, argument.register) ∈ argumentCopies callee args := by
  obtain ⟨idx, found⟩ := mem_iff_getElem?.mp mem
  refine mem_map.mpr ⟨((param, argument), idx), ?_, ?_⟩
  · refine mem_fillOrder.mpr (mem_filter.mpr ⟨mem_zipIdx_iff_getElem?.mpr found, ?_⟩)
    simp only [bound]
  · simp only [argumentCopy, ParamSlot.location, bound]

theorem placed_argumentCopies (known : ∀ argument ∈ args, argument.register < bound) :
    ∀ copy ∈ argumentCopies callee args, copy.1.fixed.isSome ∧ copy.2 < bound := by
  intro copy mem
  obtain ⟨entry, entry_mem, rfl⟩ := mem_map.mp mem
  have found := mem_zipIdx_iff_getElem?.mp (mem_filter.mp (mem_fillOrder.mp entry_mem)).1
  exact ⟨rfl, known _ (of_mem_zip (mem_of_getElem? found)).2⟩

theorem placed_returnCopies {returns : List ReturnSlot} {vals : List TypedReg}
    (known : ∀ value ∈ vals, value.register < bound) :
    ∀ copy ∈ returnCopies returns vals, copy.1.fixed.isSome ∧ copy.2 < bound := by
  intro copy mem
  obtain ⟨entry, entry_mem, rfl⟩ := mem_map.mp mem
  exact ⟨rfl, known _ (mem_of_getElem? (mem_returnEntries entry_mem).2)⟩

theorem lt_of_mem_pushedRegisters (known : ∀ argument ∈ args, argument.register < bound) :
    ∀ reg ∈ pushedRegisters callee args, reg < bound := by
  intro reg mem
  obtain ⟨⟨param, argument⟩, pair_mem, found⟩ := mem_filterMap.mp mem
  unfold pushed? at found
  cases place_eq : param.place with
  | stack =>
    rw [place_eq] at found
    cases found
    exact known _ (of_mem_zip pair_mem).2
  | bound =>
    rw [place_eq] at found
    cases found

/-- The code of a call passes its arguments, and the code of a return its values, as if all of them
were passed at once, if they are clear of each other: every place then holds what its value was
before, and so do the bytes that are pushed. -/
theorem Lower.passes_at_once (around : Surroundings) (draft : Draft) :
    (∀ (callee : Signature) (arguments : List TypedReg)
        (make : List (Option VReg) → List VReg → Action) (taken : List TypedReg) (final : Draft),
      callWith callee arguments make around draft = .ok (taken, final) →
      (∀ argument ∈ arguments, argument.register < draft.vregs.size) →
      Clear draft.cell (argumentCopies callee arguments) →
      ∃ (code : List Action) (fixed : List (Option VReg)) (passed : Draft),
        passed.blocks = (draft.emitAll code).blocks ∧
        (do let results ← callee.returns.mapM fun slot : ReturnSlot =>
              newFixedReg "ret" slot.width slot.type.isSigned slot.location
            emit (make fixed results)
            emptyResults callee results) around passed = .ok (taken, final) ∧
        ∀ contents : Contents, (passed.passAll code contents).pushed =
            (pushedRegisters callee arguments).reverse.flatMap (fun register =>
              contents.read (draft.cell register) (draft.info register).width) ++ contents.pushed ∧
          ∀ param argument place, (param, argument) ∈ callee.params.zip arguments →
            param.place = .bound place →
            (passed.passAll code contents).read place.cell param.width =
              contents.read (draft.cell argument.register) param.width) ∧
    ∀ (values : List TypedReg) (final : Draft), returnValues values around draft = .ok ((), final) →
      (∀ value ∈ values, value.register < draft.vregs.size) →
      Clear draft.cell (returnCopies around.signature.returns values) →
      ∃ (code : List Action) (registers : List VReg),
        final.blocks = ((draft.emitAll code).terminate (.giveBack registers)).blocks ∧
        ∀ (contents : Contents) (slot : ReturnSlot) (value : TypedReg),
          (slot, value) ∈ around.signature.returns.zip values →
          (final.passAll code contents).read slot.location.cell slot.width =
            contents.read (draft.cell value.register) slot.width := by
  constructor
  · intro callee arguments make taken final lowered known clear
    obtain ⟨fixed, lowered⟩ := callWith_ok lowered
    set middle := draft.emitAll (pushes (pushedRegisters callee arguments))
    set passed := middle.copyAll (argumentCopies callee arguments) with passed_eq
    have vregs_eq : middle.vregs = draft.vregs := draft.emitAll_vregs _
    have info_eq (register) : middle.info register = draft.info register := by
      rw [Draft.info, Draft.info, vregs_eq]
    have cell_eq : middle.cell = draft.cell := by
      funext register
      rw [Draft.cell, Draft.cell, info_eq]
    rw [← vregs_eq] at known
    have moves (contents) : passed.passAll (Draft.movesFrom middle.vregs.size
        (argumentCopies callee arguments)) contents =
          contents.moveAll draft.cell (argumentCopies callee arguments) := by
      rw [← cell_eq, Draft.passAll_copyAll (congrArg Draft.vregs passed_eq)
        (placed_argumentCopies known)]
    have same (register) (mem : register ∈ pushedRegisters callee arguments) :
        passed.info register = draft.info register := by
      rw [← info_eq, passed_eq,
        Draft.info_copyAll_of_lt (lt_of_mem_pushedRegisters known register mem)]
    refine ⟨pushes (pushedRegisters callee arguments) ++
      Draft.movesFrom draft.vregs.size (argumentCopies callee arguments), fixed, passed,
      draft.passed_blocks .., lowered, fun contents => ?_⟩
    · rw [Draft.passAll, List.foldl_append, ← Draft.passAll, ← Draft.passAll, ← vregs_eq, moves,
        Draft.passAll_pushes same]
      refine ⟨Contents.moveAll_pushed _, fun param argument place mem bound => ?_⟩
      exact Contents.read_moveAll clear _ (mem_argumentCopies mem bound)
  · intro values final lowered known clear
    obtain ⟨_, _, _, final_eq⟩ := returnValues_ok lowered
    rw [← returnCopies] at final_eq
    refine ⟨Draft.movesFrom draft.vregs.size (returnCopies around.signature.returns values),
      (inOrder around.signature.returns.length
        ((returnEntries around.signature.returns values).mapIdx fun index entry =>
          (entry.2, draft.vregs.size + index))).map (·.getD 0), ?_, ?_⟩
    · rw [final_eq, Draft.copyAll_eq, Draft.terminate_addRegs, Draft.addRegs_blocks]
    · intro contents slot value mem
      have vregs_eq : final.vregs =
          (draft.copyAll (returnCopies around.signature.returns values)).vregs := by
        rw [final_eq, Draft.terminate_vregs]
      rw [Draft.passAll_copyAll vregs_eq (placed_returnCopies known)]
      obtain ⟨index, found⟩ := List.mem_iff_getElem?.mp mem
      exact Contents.read_moveAll clear (returnCopy ((slot, value), index))
        (List.mem_map_of_mem (mem_fillOrder.mpr (List.mem_zipIdx_iff_getElem?.mpr found)))

/-- A function of two parameters at addresses that follow each other. -/
def exchange : FunctionDecl where
  name := "exchange"
  params := [{ name := "p", type := .u8, binding := .symbol "first" },
    { name := "q", type := .u8, binding := .symbol "second" }]
  returns := [{ type := .u8, binding := .register "a" }]

def exchangeContext : UnitContext where
  unit := { functions := [exchange], globals := [
    { name := "first", type := .u8, address := some 0x200 },
    { name := "second", type := .u8, address := some 0x201 }] }
  signatures := []
  plan := { tags := { limit := 0 } }
  settings := default

def exchangeSignature : Signature where
  name := "exchange"
  params := [{ name := "p", type := .u8, width := .byte, place := .bound (.fixed 0x200 "first") },
    { name := "q", type := .u8, width := .byte, place := .bound (.fixed 0x201 "second") }]
  returns := [{ type := .u8, width := .byte, location := .reg .a }]

/-- The function at its first statement. Its parameters are the registers 1 and 2. -/
def exchangeEntered : Draft where
  blocks := #[{ name := "entry", actions := [.params [1, 2]] }]
  vregs := #[{}, { name := "p", width := .byte, fixed := some (.fixed 0x200 "first") },
    { name := "q", width := .byte, fixed := some (.fixed 0x201 "second") }]
  scopes := [[("p", { register := 1, type := .u8 }), ("q", { register := 2, type := .u8 })]]

theorem exchange_passes_in_order : (∃ (code : List Action) (passed : Draft),
      passed.blocks = (exchangeEntered.emitAll code).blocks ∧ ∀ contents : Contents,
        (passed.passAll code contents).read (Loc.fixed 0x201 "second").cell .byte =
          contents.read (exchangeEntered.cell 2) .byte) ∧
    ∃ (code : List Action) (final : Draft), ∀ contents : Contents,
      (final.passAll code contents).read (Loc.reg .a).cell .byte =
        contents.read (exchangeEntered.cell 1) .byte := by
  obtain ⟨calls, returns⟩ :=
    Lower.passes_at_once ⟨exchangeContext, exchangeSignature, [], 0⟩ exchangeEntered
  constructor
  · obtain ⟨code, fixed, passed, added, -, passes⟩ := calls exchangeSignature
      [⟨1, .u8⟩, ⟨2, .u8⟩] (fun _ _ => .params []) _ _ rfl (by decide) (by decide)
    refine ⟨code, passed, added, fun contents => ?_⟩
    exact (passes contents).2 ⟨"q", .u8, .byte, .bound (.fixed 0x201 "second")⟩ ⟨2, .u8⟩ _
      (by decide) rfl
  · obtain ⟨code, registers, added, passes⟩ := returns [⟨1, .u8⟩] _ rfl (by decide) (by decide)
    exact ⟨code, _, fun contents => passes contents ⟨.u8, .byte, .reg .a⟩ ⟨1, .u8⟩ (by decide)⟩

/-- It may not pass them on in the other order: the second place then gets the value of the second
parameter again. -/
theorem exchange_loses_first :
    exchange.resolve "exchange" exchangeContext.unit = .ok exchangeSignature ∧
    Lower.enterParams ⟨exchangeContext, exchangeSignature, [], 0⟩ {} = .ok ((), exchangeEntered) ∧
    ∃ call taken final, Lower.callDirect exchangeSignature [⟨2, .u8⟩, ⟨1, .u8⟩]
        ⟨exchangeContext, exchangeSignature, [], 0⟩ exchangeEntered = .ok (taken, final) ∧
      final.currentBlock.actions = [.params [1, 2], .move 3 2, .move 4 1, .call call, .move 6 5] ∧
      ∃ contents : Contents,
        (final.passAll [.move 3 2, .move 4 1] contents).read (Loc.fixed 0x201 "second").cell .byte ≠
          contents.read (exchangeEntered.cell 1) .byte := by
  refine ⟨rfl, rfl, _, _, _, rfl, rfl, ⟨fun cell => if cell = .address 0x200 then 1 else 0, []⟩, ?_⟩
  decide

end Backend65816
