import Mathlib.Data.List.Basic
import Backend65816.Placement.Allocate

/-!
# Slots and the intervals of their registers

A layout is built by touching positions. Touching never shortens an interval, so the interval of a
register still reaches every slot that names the register once the layout is complete.
-/

namespace Backend65816

open Array

variable {pos : Int} {interval : Interval}

namespace SlotLayout

variable {register : VReg} {layout : SlotLayout}

/-- The interval of a register reaches a position, ends included. -/
def Reaches (layout : SlotLayout) (register : VReg) (position : Int) : Prop :=
  ∃ interval, layout.interval? register = some interval ∧
    interval.first ≤ position ∧ position ≤ interval.last

def Ordered (layout : SlotLayout) : Prop :=
  ∀ register interval, layout.interval? register = some interval → interval.first ≤ interval.last

/-- The interval of every known register that a slot names reaches the slot. -/
def Covers (layout : SlotLayout) : Prop :=
  ∀ index slot, layout.slots[index]? = some slot →
    ∀ register ∈ slot.uses ++ slot.defs, register < layout.intervals.size →
      layout.Reaches register (slotPosition index)

@[simp]
theorem touch_size (pos : Int) (layout : SlotLayout) (reg : VReg) :
    (touch pos layout reg).intervals.size = layout.intervals.size := by
  simp [touch]

theorem interval?_touch_of_ne (layout : SlotLayout) {other : VReg} (different : other ≠ reg) :
    (touch pos layout reg).interval? other = layout.interval? other := by
  simp [touch, interval?, different.symm]

theorem interval?_touch_self (position : Int) (layout : SlotLayout)
    (known : reg < layout.intervals.size) :
    (touch position layout reg).interval? reg =
      some ((layout.interval? reg).elim ⟨position, position⟩ (·.extend position)) := by
  simp only [touch, interval?, getD_eq_getD_getElem?, known,
    getElem?_setIfInBounds_self_of_lt, Option.getD_some]
  grind

theorem interval?_eq_none_of_le (layout : SlotLayout) (unknown : layout.intervals.size ≤ reg) :
    layout.interval? reg = none := by
  simp [interval?, unknown]

theorem lt_size_of_interval?
    (found : layout.interval? reg = some interval) : reg < layout.intervals.size := by
  grind [interval?_eq_none_of_le]

theorem touch_ordered (ordered : layout.Ordered) {position : Int} {reg : VReg} :
    (touch position layout reg).Ordered := by
  intro other interval found
  by_cases same : other = reg
  · subst other
    have known : reg < layout.intervals.size := by
      simpa using lt_size_of_interval? found
    rw [interval?_touch_self position layout known] at found
    obtain rfl := Option.some.inj found
    cases earlier : layout.interval? reg with
    | none => exact Int.le_refl _
    | some old =>
      have old_ordered := ordered reg old earlier
      grind [Interval.extend]
  · rw [interval?_touch_of_ne layout same] at found
    exact ordered other interval found

theorem Reaches.touch (reached : layout.Reaches reg pos) (touched : Int)
    (other : VReg) : (touch touched layout other).Reaches reg pos := by
  obtain ⟨interval, found, first_le, le_last⟩ := reached
  by_cases same : reg = other
  · subst other
    refine ⟨interval.extend touched, ?_, ?_⟩
    · rw [interval?_touch_self touched layout (lt_size_of_interval? found), found, Option.elim_some]
    · grind [Interval.extend]
  · exact ⟨interval, by rw [interval?_touch_of_ne layout same, found], first_le, le_last⟩

theorem reaches_touch_self (ordered : layout.Ordered) (position : Int)
    (known : reg < layout.intervals.size) : (touch position layout reg).Reaches reg position := by
  have touched := interval?_touch_self position layout known
  cases earlier : layout.interval? reg with
  | none =>
    rw [earlier] at touched
    exact ⟨⟨position, position⟩, touched, Int.le_refl _, Int.le_refl _⟩
  | some old =>
    rw [earlier] at touched
    have old_ordered := ordered reg old earlier
    refine ⟨old.extend position, touched, ?_⟩
    grind [Interval.extend]

@[simp]
theorem touchAll_slots (layout : SlotLayout) (pos : Int) (regs : List VReg) :
    (layout.touchAll pos regs).slots = layout.slots := by
  induction regs generalizing layout with
  | nil => rfl
  | cons reg rest ih => exact ih (touch pos layout reg)

@[simp]
theorem touchAll_size (layout : SlotLayout) (pos : Int) (regs : List VReg) :
    (layout.touchAll pos regs).intervals.size = layout.intervals.size := by
  induction regs generalizing layout with
  | nil => rfl
  | cons reg rest ih => exact (ih (touch pos layout reg)).trans (by simp)

theorem touchAll_ordered (ordered : layout.Ordered) (pos : Int) (regs : List VReg) :
    (layout.touchAll pos regs).Ordered :=
  regs.foldlRecOn _ ordered fun _ ordered _ _ => touch_ordered ordered

theorem Reaches.touchAll (reached : layout.Reaches reg pos) (touched : Int) (regs : List VReg) :
    (layout.touchAll touched regs).Reaches reg pos :=
  regs.foldlRecOn (motive := (Reaches · reg pos)) _ reached fun _ reached other _ =>
    reached.touch touched other

theorem reaches_touchAll_of_mem (ordered : layout.Ordered) (pos : Int) {regs : List VReg}
    (mem : reg ∈ regs) (known : reg < layout.intervals.size) :
    (layout.touchAll pos regs).Reaches reg pos := by
  induction regs generalizing layout with
  | nil => cases mem
  | cons other rest ih =>
    rcases List.mem_cons.mp mem with same | later
    · subst other
      exact (reaches_touch_self ordered pos known).touchAll pos rest
    · exact ih (touch_ordered ordered) later (by simpa using known)

theorem Covers.touchAll (covers : layout.Covers) (pos : Int) (regs : List VReg) :
    (layout.touchAll pos regs).Covers := by
  intro idx slot found reg mem known
  rw [touchAll_slots] at found
  rw [touchAll_size] at known
  exact (covers idx slot found reg mem known).touchAll pos regs

theorem Covers.append (covers : layout.Covers) (ordered : layout.Ordered) (slot : Slot) :
    (layout.append slot).Covers := by
  intro idx found_slot found reg mem known
  rw [SlotLayout.append, touchAll_size] at known
  simp only [SlotLayout.append, touchAll_slots, getElem?_push] at found
  split at found
  · next last =>
    obtain rfl := Option.some.inj found
    rw [last]
    exact reaches_touchAll_of_mem ordered _ mem known
  · exact (covers idx found_slot found reg mem known).touchAll _ _

/-- What holds while a layout is built. -/
structure Sound (layout : SlotLayout) (count : Nat) : Prop where
  size : layout.intervals.size = count
  ordered : layout.Ordered
  covers : layout.Covers

section

variable {count : Nat} (sound : layout.Sound count)
include sound

theorem Sound.append (slot : Slot) : (layout.append slot).Sound count :=
  ⟨(touchAll_size ..).trans sound.size, touchAll_ordered sound.ordered _ _,
    sound.covers.append sound.ordered slot⟩

theorem Sound.touchAll (pos : Int) (regs : List VReg) : (layout.touchAll pos regs).Sound count :=
  ⟨(touchAll_size ..).trans sound.size, touchAll_ordered sound.ordered pos regs,
    sound.covers.touchAll pos regs⟩

theorem Sound.appendActions (id : BlockId) (actions : List (Action × Nat)) :
    (actions.foldl (fun layout (action, idx) => layout.append ⟨id, .action idx action⟩)
      layout).Sound count :=
  actions.foldlRecOn (motive := (Sound · count)) _ sound fun _ sound _ _ => sound.append _

theorem Sound.appendBlock (live : Liveness) (entry : BasicBlock × BlockId) :
    (appendBlock live layout entry).Sound count := by
  obtain ⟨block, id⟩ := entry
  exact (((sound.appendActions id block.actions.zipIdx).append _).touchAll _ _).touchAll _ _

theorem Sound.appendBlocks (live : Liveness) (entries : List (BasicBlock × BlockId)) :
    (entries.foldl (SlotLayout.appendBlock live) layout).Sound count :=
  entries.foldlRecOn (motive := (Sound · count)) _ sound fun _ sound entry _ =>
    sound.appendBlock live entry

end

end SlotLayout

theorem SlotLayout.sound_of_no_slots {count : Nat} :
    SlotLayout.Sound { intervals := replicate count none } count := by
  refine ⟨size_replicate, ?_, ?_⟩
  · intro reg interval found
    simp only [SlotLayout.interval?, getD_eq_getD_getElem?, getElem?_replicate] at found
    split at found <;> cases found
  · intro idx slot found
    simp at found

theorem Graph.slotLayout_sound (graph : Graph) {live : Liveness} :
    (graph.slotLayout live).Sound graph.vregs.size :=
  SlotLayout.sound_of_no_slots.appendBlocks live _

/-- The slots that allocation looks at are those at positions strictly inside the interval. -/
theorem AllocationProblem.mem_slotsInside {layout : SlotLayout} {idx : Nat}
    {slot : Slot} (found : layout.slots[idx]? = some slot)
    (inside : interval.contains (slotPosition idx)) : slot ∈ slotsInside layout interval := by
  simp only [Interval.contains, Bool.and_eq_true, decide_eq_true_eq] at inside
  simp only [slotPosition] at inside
  have in_bounds : idx < layout.slots.size := (Array.getElem?_eq_some_iff.mp found).1
  simp only [slotsInside, Array.mem_toList_iff, Array.mem_extract_iff_getElem]
  refine ⟨idx - ((interval.first + 2) / 2).toNat, by omega, ?_⟩
  grind

end Backend65816
