import Mathlib.Algebra.Order.Ring.Int
import Backend65816.Proofs.LivenessEquations
import Backend65816.Proofs.SlotReach

/-!
# Liveness along paths

A register is live at a point if some path from there reads it before anything writes it. Such a
register is in the sets of `Graph.liveness`, and so its interval reaches from in front of the point
to behind it, whatever the layout does to the path.
-/

namespace Backend65816

open List RegSet Array Nat SlotLayout BasicBlock

variable {graph : Graph} {live : Liveness}

variable {id : BlockId} {block : BasicBlock} {slot : Slot}

def BasicBlock.slots (block : BasicBlock) (id : BlockId) : List Slot :=
  block.actions.zipIdx.map (fun (action, index) => ⟨id, .action index action⟩) ++
    [⟨id, .terminator block.terminator⟩]

namespace Graph

def blockSlots (graph : Graph) (id : BlockId) : List Slot :=
  match graph.blocks[id]? with
  | some block => block.slots id
  | none => []

variable (graph) (register : VReg)

/-- A path from the point in front of a slot reads the register before a slot writes it. The point
behind the last slot of a block is the one in front of a slot that is not there. -/
inductive LiveAt : (id : BlockId) → (index : Nat) → Prop where
  | read {id : BlockId} {index : Nat} {slot : Slot}
      (found : (graph.blockSlots id)[index]? = some slot) (used : register ∈ slot.uses) :
      LiveAt id index
  | pass {id : BlockId} {index : Nat} {slot : Slot}
      (found : (graph.blockSlots id)[index]? = some slot) (unwritten : register ∉ slot.defs)
      (later : LiveAt id (index + 1)) : LiveAt id index
  | follow {id target : BlockId} (edge : target ∈ graph.successors id)
      (later : LiveAt target 0) : LiveAt id (graph.blockSlots id).length

end Graph

theorem BasicBlock.length_slots (block : BasicBlock) (id : BlockId) :
    (block.slots id).length = block.actions.length + 1 := by
  simp [slots]

theorem Graph.blockSlots_of_found (found : graph.blocks[id]? = some block) :
    graph.blockSlots id = block.slots id := by
  rw [Graph.blockSlots, found]

theorem Graph.exists_block {idx : Nat} (found : (graph.blockSlots id)[idx]? = some slot) :
    ∃ block, graph.blocks[id]? = some block := by
  grind [Graph.blockSlots]

/-! ## Paths and the equations -/

/-- The register is read by the slots before they write it, or passes them and is needed behind. -/
def NeededBefore (after : RegSet) (register : VReg) : List Slot → Prop
  | [] => after.contains register = true
  | slot :: rest =>
    register ∈ slot.uses ∨ register ∉ slot.defs ∧ NeededBefore after register rest

def BlockEffect.slotStep (effect : BlockEffect) (slot : Slot) : BlockEffect :=
  (effect.read slot.uses).write slot.defs

theorem BasicBlock.effect_eq (block : BasicBlock) (id : BlockId) :
    block.effect = (block.slots id).foldl BlockEffect.slotStep {} := by
  have body (actions : List Action) (start : Nat) (effect : BlockEffect) :
      ((actions.zipIdx start).map (fun (action, idx) => (⟨id, .action idx action⟩ : Slot))).foldl
          BlockEffect.slotStep effect = actions.foldl .step effect := by
    induction actions generalizing start effect with
    | nil => rfl
    | cons action rest ih =>
      rw [List.zipIdx_cons, List.map_cons, List.foldl_cons, ih]
      rfl
  rw [effect, slots, List.foldl_append, body]
  cases block.terminator <;> rfl

theorem neededBefore_iff (after : RegSet) (reg : VReg) (slots : List Slot) (effect : BlockEffect) :
    ((slots.foldl BlockEffect.slotStep effect).uses.contains reg = true ∨
        after.contains reg = true ∧
          (slots.foldl BlockEffect.slotStep effect).defs.contains reg = false) ↔
      effect.uses.contains reg = true ∨
        effect.defs.contains reg = false ∧ NeededBefore after reg slots := by
  induction slots generalizing effect with
  | nil => simp only [foldl_nil, NeededBefore, and_comm]
  | cons slot rest ih =>
    rw [foldl_cons, ih]
    simp only [BlockEffect.slotStep, BlockEffect.write, BlockEffect.read, contains_insertAll,
      List.contains_eq_mem, List.mem_filter, Bool.not_eq_eq_eq_not, Bool.not_true,
      ← Bool.not_eq_true, Bool.or_eq_true, decide_eq_true_eq, NeededBefore]
    tauto

theorem NeededBefore.read_or_after {after : RegSet} {reg : VReg} {slots : List Slot}
    (needed : NeededBefore after reg slots) :
    (∃ idx : Nat, ∃ slot : Slot, slots[idx]? = some slot ∧ reg ∈ slot.uses) ∨
      after.contains reg = true := by
  induction slots with
  | nil => exact .inr needed
  | cons slot rest ih =>
    rcases needed with used | ⟨_, later⟩
    · exact .inl ⟨0, slot, rfl, used⟩
    · exact (ih later).imp_left fun ⟨idx, read, found, used⟩ => ⟨idx + 1, read, found, used⟩

namespace Graph

variable {reg : VReg} {idx : Nat}

theorem contains_demand_iff : (live.demand graph graph.effects id).contains reg = true ↔
      NeededBefore (live.needed (graph.successors id)) reg (graph.blockSlots id) := by
  have effect_eq : graph.effects.getD id {} =
      (graph.blockSlots id).foldl .slotStep {} := by
    rw [getD_eq_getD_getElem?, Graph.effects, Array.getElem?_map, Graph.blockSlots]
    cases graph.blocks[id]? with
    | none => rfl
    | some block => exact block.effect_eq id
  rw [Liveness.contains_demand, effect_eq, neededBefore_iff]
  simp

theorem atStart_of_needed
    (needed : NeededBefore (graph.liveness.atEnd id) reg (graph.blockSlots id))
    (known : id < graph.blocks.size) : (graph.liveness.atStart id).contains reg = true := by
  obtain ⟨start_eq, end_eq⟩ := graph.liveness_settles.2 id known
  rw [← start_eq, contains_demand_iff, end_eq]
  exact needed

namespace LiveAt

theorem drop_eq_cons {slots : List Slot} (found : slots[idx]? = some slot) :
    slots.drop idx = slot :: slots.drop (idx + 1) := by
  grind [drop_eq_getElem_cons]

theorem known (alive : graph.LiveAt reg id idx) : id < graph.blocks.size := by
  by_contra unknown
  cases alive with
  | read found _ | pass found _ _ =>
    simp_all [Graph.blockSlots]
  | follow edge _ =>
    simp_all [Graph.successors]

theorem needed (alive : graph.LiveAt reg id idx) :
    NeededBefore (graph.liveness.atEnd id) reg ((graph.blockSlots id).drop idx) := by
  induction alive with
  | read found used =>
    rw [drop_eq_cons found]
    exact .inl used
  | pass found unwritten later ih =>
    rw [drop_eq_cons found]
    exact .inr ⟨unwritten, ih⟩
  | @follow id target edge later ih =>
    rw [drop_length, ← (graph.liveness_settles.2 id (follow edge later).known).2]
    exact Liveness.contains_needed.mpr ⟨target, edge, atStart_of_needed ih later.known⟩

theorem mem_atStart (alive : graph.LiveAt reg id 0) :
    (graph.liveness.atStart id).contains reg = true := by
  have needed := alive.needed
  exact atStart_of_needed needed alive.known

theorem start_or_written (alive : graph.LiveAt reg id idx)
    (inside : idx ≤ (graph.blockSlots id).length) :
    graph.LiveAt reg id 0 ∨
      ∃ earlier < idx, ∃ slot : Slot, (graph.blockSlots id)[earlier]? = some slot ∧
        reg ∈ slot.defs := by
  induction idx with
  | zero => exact .inl alive
  | succ idx ih =>
    have found : (graph.blockSlots id)[idx]? = some (graph.blockSlots id)[idx] :=
      List.getElem?_eq_getElem inside
    by_cases written : reg ∈ (graph.blockSlots id)[idx].defs
    · grind
    · refine (ih (.pass found written alive) (le_of_succ_le inside)).imp_right ?_
      grind

end LiveAt

end Graph

/-! ## Positions of points -/

namespace SlotLayout

variable {layout : SlotLayout} {reg : VReg} {pos : Int}

theorem append_slots (layout : SlotLayout) (slot : Slot) :
    (layout.append slot).slots = layout.slots.push slot := by
  simp [append]

theorem appendActions_slots (layout : SlotLayout) (id : BlockId) (actions : List (Action × Nat)) :
    (actions.foldl (fun layout (action, idx) => layout.append ⟨id, .action idx action⟩)
      layout).slots.toList = layout.slots.toList ++
          actions.map fun (action, idx) => (⟨id, .action idx action⟩ : Slot) := by
  induction actions generalizing layout with
  | nil => exact (append_nil _).symm
  | cons entry rest ih =>
    rw [List.foldl_cons, ih, append_slots, toList_push, List.append_assoc]
    rfl

theorem appendBlock_slots (live : Liveness) (layout : SlotLayout) (block : BasicBlock)
    (id : BlockId) :
    (appendBlock live layout (block, id)).slots.toList = layout.slots.toList ++ block.slots id := by
  simp only [appendBlock, touchAll_slots, append_slots, toList_push]
  rw [appendActions_slots, List.append_assoc]
  rfl

theorem appendBlocks_slots (live : Liveness) (layout : SlotLayout)
    (entries : List (BasicBlock × BlockId)) :
    (entries.foldl (appendBlock live) layout).slots.toList =
      layout.slots.toList ++ entries.flatMap fun (block, id) => block.slots id := by
  induction entries generalizing layout with
  | nil => exact (append_nil _).symm
  | cons entry rest ih =>
    grind [appendBlock_slots]

section

variable (reached : layout.Reaches reg pos)
include reached

theorem Reaches.append (slot : Slot) : (layout.append slot).Reaches reg pos := reached.touchAll _ _

theorem Reaches.appendBlocks (live : Liveness) (entries : List (BasicBlock × BlockId)) :
    (entries.foldl (appendBlock live) layout).Reaches reg pos :=
  entries.foldlRecOn (motive := (Reaches · reg pos)) _ reached fun _ reached entry _ =>
    have actions := entry.1.actions.zipIdx.foldlRecOn (motive := (Reaches · reg pos))
      (fun layout (action, idx) => layout.append ⟨entry.2, .action idx action⟩) reached
      fun _ reached _ _ => reached.append _
    ((actions.append _).touchAll _ _).touchAll _ _

end

/-- A block is appended with the registers live at its start touched in front of its slots, and those
live at its end behind them. -/
theorem reaches_appendBlock {count : Nat} (sound : layout.Sound count) (known : reg < count) :
    ((live.atStart id).contains reg = true →
      (appendBlock live layout (block, id)).Reaches reg (slotPosition layout.slots.size - 1)) ∧
    ((live.atEnd id).contains reg = true → (appendBlock live layout (block, id)).Reaches reg
      (slotPosition (layout.slots.size + block.actions.length) + 1)) := by
  have body_size : (block.actions.zipIdx.foldl
      (fun layout (action, idx) => layout.append ⟨id, .action idx action⟩)
        layout).slots.size = layout.slots.size + block.actions.length := by
    rw [← length_toList, appendActions_slots]
    simp
  have complete := (sound.appendActions id block.actions.zipIdx).append
    ⟨id, .terminator block.terminator⟩
  constructor <;> intro mem
  · refine (reaches_touchAll_of_mem complete.ordered _ (mem_toList.mpr mem) ?_).touchAll _ _
    rwa [complete.size]
  · simp only [appendBlock, nextPosition, body_size]
    refine reaches_touchAll_of_mem (complete.touchAll _ _).ordered _ (mem_toList.mpr mem) ?_
    rwa [(complete.touchAll ..).size]

end SlotLayout

namespace Graph

def slotBase (graph : Graph) (id : BlockId) : Nat :=
  ((graph.blocks.toList.take id).map fun block => block.actions.length + 1).sum

variable {reg : VReg} {idx : Nat}

theorem length_slots_zipIdx (blocks : List BasicBlock) (num : Nat) :
    ((blocks.zipIdx num).flatMap fun (block, id) => block.slots id).length =
      (blocks.map fun block => block.actions.length + 1).sum := by
  induction blocks generalizing num with
  | nil => rfl
  | cons block rest ih =>
    rw [zipIdx_cons, flatMap_cons, length_append, ih, length_slots, map_cons, sum_cons]

section

variable (live)

theorem slotLayout_split (found : graph.blocks[id]? = some block) :
    ∃ (before : SlotLayout) (back : List (BasicBlock × BlockId)),
      before.Sound graph.vregs.size ∧ before.slots.size = graph.slotBase id ∧
      graph.slotLayout live =
        back.foldl (appendBlock live) (appendBlock live before (block, id)) := by
  obtain ⟨bound, rfl⟩ := Array.getElem?_eq_some_iff.mp found
  let start : SlotLayout := { intervals := Array.replicate graph.vregs.size none }
  let front := graph.blocks.toList.take id
  let back := graph.blocks.toList.drop (id + 1)
  have length_eq : front.length = id := by
    grind
  have blocks_eq : graph.blocks.toList = front ++ graph.blocks[id] :: back := by
    rw [← getElem_toList, ← drop_eq_getElem_cons, take_append_drop]
  refine ⟨front.zipIdx.foldl (appendBlock live) start, back.zipIdx (id + 1),
    sound_of_no_slots.appendBlocks live _, ?_, ?_⟩
  · rw [← length_toList, appendBlocks_slots, length_append, length_slots_zipIdx]
    exact zero_add _
  · rw [Graph.slotLayout, blocks_eq, List.zipIdx_append, List.foldl_append, List.zipIdx_cons,
      foldl_cons, length_eq, zero_add]

variable (found : (graph.blockSlots id)[idx]? = some slot)
include found

theorem slotLayout_slots : (graph.slotLayout live).slots[graph.slotBase id + idx]? = some slot := by
  obtain ⟨block, block_found⟩ := exists_block found
  obtain ⟨before, back, _, size_eq, layout_eq⟩ := slotLayout_split live block_found
  rw [blockSlots_of_found block_found] at found
  rw [← getElem?_toList, layout_eq, appendBlocks_slots,
    appendBlock_slots, List.append_assoc, ← size_eq, ← length_toList,
    List.getElem?_append_right (Nat.le_add_right _ _), Nat.add_sub_cancel_left]
  grind

theorem reaches_slot (named : reg ∈ slot.uses ++ slot.defs) (known : reg < graph.vregs.size) :
    (graph.slotLayout live).Reaches reg (slotPosition (graph.slotBase id + idx)) :=
  graph.slotLayout_sound.covers _ slot (slotLayout_slots live found) reg named
    (by rwa [graph.slotLayout_sound.size])

end

variable (found : graph.blocks[id]? = some block)
include found

theorem reaches_ends (known : reg < graph.vregs.size) :
    ((live.atStart id).contains reg = true →
      (graph.slotLayout live).Reaches reg (slotPosition (graph.slotBase id) - 1)) ∧
    ((live.atEnd id).contains reg = true → (graph.slotLayout live).Reaches reg
      (slotPosition (graph.slotBase id + block.actions.length) + 1)) := by
  obtain ⟨before, back, sound, size_eq, layout_eq⟩ := slotLayout_split live found
  rw [layout_eq, ← size_eq]
  obtain ⟨first, last⟩ := reaches_appendBlock sound known
  exact ⟨fun mem => (first mem).appendBlocks live back, fun mem => (last mem).appendBlocks live back⟩

end Graph

/-! ## Intervals of live registers -/

namespace Graph.LiveAt

variable {reg : VReg} {idx : Nat}

section

variable (alive : graph.LiveAt reg id idx) (inside : idx < (graph.blockSlots id).length)
    (named : reg < graph.vregs.size)
include alive inside named

theorem reaches_before : ∃ pos, (graph.slotLayout graph.liveness).Reaches reg pos ∧
      pos < slotPosition (graph.slotBase id + idx) := by
  have found : graph.blocks[id]? = some _ := getElem?_eq_getElem alive.known
  rcases alive.start_or_written (le_of_lt inside) with
    entered | ⟨earlier, before, slot, slot_found, defined⟩
  · refine ⟨_, (reaches_ends found named).1 entered.mem_atStart, ?_⟩
    simp only [slotPosition]
    omega
  · refine ⟨_, reaches_slot _ slot_found (mem_append_right _ defined) named, ?_⟩
    simp only [slotPosition]
    omega

theorem reaches_behind : ∃ pos, (graph.slotLayout graph.liveness).Reaches reg pos ∧
      slotPosition (graph.slotBase id + idx) ≤ pos := by
  have found : graph.blocks[id]? = some _ := getElem?_eq_getElem alive.known
  rcases alive.needed.read_or_after with ⟨later, slot, slot_found, used⟩ | leaves
  · rw [List.getElem?_drop] at slot_found
    refine ⟨_, reaches_slot _ slot_found (mem_append_left _ used) named, ?_⟩
    simp only [slotPosition]
    omega
  · refine ⟨_, (reaches_ends found named).2 leaves, ?_⟩
    rw [blockSlots_of_found found, length_slots] at inside
    simp only [slotPosition]
    omega

theorem interval_contains :
    ∃ interval, (graph.slotLayout graph.liveness).interval? reg = some interval ∧
      interval.first < slotPosition (graph.slotBase id + idx) ∧
      slotPosition (graph.slotBase id + idx) ≤ interval.last := by
  obtain ⟨front, ⟨interval, found, first_le, _⟩, front_lt⟩ := alive.reaches_before inside named
  obtain ⟨back, ⟨other, other_found, _, le_last⟩, le_back⟩ := alive.reaches_behind inside named
  grind

end

end Graph.LiveAt

end Backend65816
