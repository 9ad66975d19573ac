import Backend65816.Proofs.PathLiveness
import Backend65816.Proofs.Residence

/-!
# Storage of live values

Two values that are needed at the same time have intervals that overlap: liveness along paths puts
the point at which both are needed inside both intervals. Allocation gives overlapping intervals
different hardware registers and different bytes of the scratch pool, and it gives bytes of the frame
only once.
-/

namespace Backend65816

open Nat List Bool

variable {due : List VReg} {offset : Nat} {area : Nat → Loc} {hw : Reg} {reg : VReg}

variable {first second : VReg}

/-! ## Conflicts and intervals -/

namespace Graph

/-- A slot writes nothing but the target, and the other register is live behind it. -/
def WrittenBeside (graph : Graph) (target other : VReg) : Prop :=
  ∃ id index, ∃ slot : Slot, (graph.blockSlots id)[index]? = some slot ∧ target ∈ slot.defs ∧
    (∀ register ∈ slot.defs, register = target) ∧ graph.LiveAt other id (index + 1)

/-- Both registers are live at some point, or one is the only register that a slot writes while the
other one is live. -/
def Conflict (graph : Graph) (first second : VReg) : Prop :=
  (∃ id index, graph.LiveAt first id index ∧ graph.LiveAt second id index) ∨
    graph.WrittenBeside first second ∨ graph.WrittenBeside second first

def Appears (graph : Graph) (register : VReg) : Prop :=
  ∃ id, ∃ index : Nat, ∃ slot : Slot, (graph.blockSlots id)[index]? = some slot ∧
    register ∈ slot.uses ++ slot.defs

variable {graph : Graph} {id : BlockId} {idx : Nat}

theorem LiveAt.index_le (alive : graph.LiveAt reg id idx) : idx ≤ (graph.blockSlots id).length := by
  cases alive with
  | read found _ | pass found _ _ => grind
  | follow _ _ => exact le_refl _

theorem defs_of_last {slot : Slot} (found : (graph.blockSlots id)[idx]? = some slot)
    (last : idx + 1 = (graph.blockSlots id).length) : slot.defs = [] := by
  obtain ⟨block, block_found⟩ := exists_block found
  rw [blockSlots_of_found block_found] at found last
  rw [BasicBlock.length_slots, add_right_cancel_iff] at last
  rw [BasicBlock.slots, List.getElem?_append_right (by simp [last])] at found
  simp only [List.length_map, List.length_zipIdx, last, Nat.sub_self] at found
  obtain rfl := Option.some.inj found
  rfl

theorem LiveAt.before_last (alive : graph.LiveAt reg id (graph.blockSlots id).length) :
    ∃ last, last + 1 = (graph.blockSlots id).length ∧ graph.LiveAt reg id last := by
  obtain ⟨block, found⟩ : ∃ block, graph.blocks[id]? = some block :=
    ⟨_, Array.getElem?_eq_getElem alive.known⟩
  have length_eq : (graph.blockSlots id).length = block.actions.length + 1 := by
    rw [blockSlots_of_found found, BasicBlock.length_slots]
  obtain ⟨slot, slot_found⟩ : ∃ slot, (graph.blockSlots id)[block.actions.length]? = some slot :=
    ⟨_, List.getElem?_eq_getElem (length_eq ▸ lt_succ_self _)⟩
  refine ⟨block.actions.length, length_eq.symm, .pass slot_found ?_ (length_eq ▸ alive)⟩
  grind [defs_of_last]

/-- The intervals of both registers are known and overlap. -/
def Overlapping (graph : Graph) (first second : VReg) : Prop :=
  ∃ left right, (graph.slotLayout graph.liveness).interval? first = some left ∧
    (graph.slotLayout graph.liveness).interval? second = some right ∧
    left.overlaps right = true

theorem Overlapping.symm (overlapping : graph.Overlapping first second) :
    graph.Overlapping second first := by
  obtain ⟨left, right, left_found, right_found, overlaps⟩ := overlapping
  refine ⟨right, left, right_found, left_found, ?_⟩
  rwa [Interval.overlaps, Bool.and_comm]

section

variable (first_known : first < graph.vregs.size) (second_known : second < graph.vregs.size)
include first_known second_known

theorem overlapping_of_live (first_alive : graph.LiveAt first id idx)
    (second_alive : graph.LiveAt second id idx) : graph.Overlapping first second := by
  -- At the end of a block both are live in front of its last slot.
  obtain ⟨inside, below, first_inside, second_inside⟩ : ∃ inside < (graph.blockSlots id).length,
      graph.LiveAt first id inside ∧ graph.LiveAt second id inside := by
    rcases lt_or_eq_of_le first_alive.index_le with below | rfl
    · grind
    · obtain ⟨last, last_eq, first_before⟩ := first_alive.before_last
      obtain ⟨other, other_eq, second_before⟩ := second_alive.before_last
      grind
  obtain ⟨left, left_found, left_first, left_last⟩ :=
    first_inside.interval_contains below first_known
  obtain ⟨right, right_found, right_first, right_last⟩ :=
    second_inside.interval_contains below second_known
  refine ⟨left, right, left_found, right_found, ?_⟩
  simp only [Interval.overlaps, and_eq_true, decide_eq_true_eq]
  omega

theorem WrittenBeside.overlapping (written : graph.WrittenBeside first second)
    (different : first ≠ second) : graph.Overlapping first second := by
  obtain ⟨id, idx, slot, found, defined, only, alive⟩ := written
  have passed : graph.LiveAt second id idx :=
    .pass found (fun mem => different (only second mem).symm) alive
  have below : idx + 1 < (graph.blockSlots id).length := by
    grind [defs_of_last]
  obtain ⟨right, right_found, right_first, _⟩ :=
    passed.interval_contains (lt_of_succ_lt below) second_known
  obtain ⟨other, other_found, _, right_last⟩ := alive.interval_contains below second_known
  obtain rfl := Option.some.inj (right_found.symm.trans other_found)
  obtain ⟨left, left_found, left_first, left_last⟩ :=
    reaches_slot graph.liveness found (mem_append_right _ defined) first_known
  refine ⟨left, right, left_found, right_found, ?_⟩
  simp only [slotPosition] at *
  simp only [Interval.overlaps, and_eq_true, decide_eq_true_eq]
  omega

theorem Conflict.overlapping (conflict : graph.Conflict first second)
    (different : first ≠ second) : graph.Overlapping first second := by
  rcases conflict with ⟨id, idx, first_alive, second_alive⟩ | beside | beside
  · grind [overlapping_of_live]
  · exact beside.overlapping first_known second_known different
  · exact (beside.overlapping second_known first_known different.symm).symm

end

end Graph

/-! ## Places in memory -/

namespace AllocationProblem

variable {prob : AllocationProblem} {placed : Placed}

variable {loc : Loc} {done : List VReg} {interval : Interval} {state : Spill}

theorem placed_or_refused (distinct : due.Nodup) (mem : reg ∈ due) (known : reg < placed.size) :
    reg ∈ prob.refused due placed ∨
      ∃ hw, (due.foldl prob.attempt placed).getD reg none = some (.reg hw) := by
  induction due generalizing placed with
  | nil => cases mem
  | cons next rest ih =>
    obtain ⟨not_later, rest_distinct⟩ := nodup_cons.mp distinct
    rw [foldl_cons]
    simp only [refused]
    cases res : prob.place? placed next with
    | none =>
      grind [attempt]
    | some after =>
      have after_eq : prob.attempt placed next = after := by simp [attempt, res]
      obtain ⟨hw, found, rfl⟩ := Option.map_eq_some_iff.mp res
      rw [after_eq]
      rcases mem_cons.mp mem with rfl | later
      · refine .inr ⟨hw, ?_⟩
        rw [foldl_attempt_of_notMem not_later, Placed.getD_set, if_pos ⟨rfl, known⟩]
      · simp_all

theorem foldl_attempt_reg {tried : List VReg} (missing : placed.getD reg none = none)
    (given : (tried.foldl prob.attempt placed).getD reg none = some loc) : ∃ hw, loc = .reg hw := by
  have general : (placed.getD reg none = none ∨ ∃ hw, placed.getD reg none = some (.reg hw)) →
      (tried.foldl prob.attempt placed).getD reg none = some loc →
      ∃ hw, loc = .reg hw := by
    clear missing given
    induction tried generalizing placed with
    | nil =>
      grind
    | cons next rest ih =>
      intro start given
      refine ih ?_ given
      rcases attempt_cases prob placed next with same | ⟨hw, _, _, changed⟩
      · rwa [same]
      · rw [changed, Placed.getD_set]
        split
        · exact .inr ⟨hw, rfl⟩
        · exact start
  exact general (.inl missing) given

/-- The pool may be used, and no call that may use it lies inside the interval of the reg. -/
def MayPool (problem : AllocationProblem) (register : VReg) : Prop :=
  problem.options.useScratch = true ∧
    problem.crossesCall (problem.layout.interval register) = false

/-- The bytes that two registers have in an area of memory do not meet. -/
def BytesApart (problem : AllocationProblem) (area : Nat → Loc) (placed : Placed)
    (first second : VReg) : Prop :=
  ∀ left right, placed.getD first none = some (area left) →
    placed.getD second none = some (area right) →
      left + (problem.graph.width first).bytes ≤ right ∨
        right + (problem.graph.width second).bytes ≤ left

/-- What holds of the registers that have been placed in memory. -/
structure Spilled (problem : AllocationProblem) (done : List VReg) (state : Spill) : Prop where
  given : ∀ register ∈ done, ∃ offset,
    state.placed.getD register none = some (.scratch offset) ∨
      state.placed.getD register none = some (.stack offset)
  pool : ∀ register ∈ done, ∀ offset, state.placed.getD register none = some (.scratch offset) →
    problem.MayPool register ∧
    offset + (problem.graph.width register).bytes ≤ problem.options.scratchSize ∧
    ⟨offset, (problem.graph.width register).bytes, (problem.layout.interval register).last⟩ ∈
      state.taken
  frame : ∀ register ∈ done, ∀ offset, state.placed.getD register none = some (.stack offset) →
    offset + (problem.graph.width register).bytes ≤ state.frame
  pool_apart : ∀ first ∈ done, ∀ second ∈ done, first ≠ second →
    (problem.layout.interval first).overlaps (problem.layout.interval second) = true →
    problem.BytesApart .scratch state.placed first second
  frame_apart : ∀ first ∈ done, ∀ second ∈ done, first ≠ second →
    problem.BytesApart .stack state.placed first second

theorem BytesApart.symm (apart : prob.BytesApart area placed first second) :
    prob.BytesApart area placed second first :=
  fun left right second_at first_at => (apart right left first_at second_at).symm

theorem forall_mem_cons_of_symmetric {related : VReg → VReg → Prop}
    (symmetric : ∀ first second, related first second → related second first)
    (old : ∀ first ∈ done, ∀ second ∈ done, first ≠ second → related first second)
    (new : ∀ other ∈ done, related reg other) :
    ∀ first ∈ reg :: done, ∀ second ∈ reg :: done, first ≠ second → related first second := by
  grind

theorem bytesApart_of_keeps {later : Placed}
    (first_kept : later.getD first none = placed.getD first none)
    (second_kept : later.getD second none = placed.getD second none)
    (apart : prob.BytesApart area placed first second) :
    prob.BytesApart area later first second := by
  intro left right first_at second_at
  exact apart left right (first_kept ▸ first_at) (second_kept ▸ second_at)

theorem Interval.overlaps_comm (left right : Interval) :
    left.overlaps right = right.overlaps left := by
  rw [Interval.overlaps, Interval.overlaps, Bool.and_comm]

section

variable (spilled : prob.Spilled done state)
include spilled

theorem Spilled.extend {next : Spill} (new : reg ∉ done) (known : reg < state.placed.size)
    (placed_eq : next.placed = state.placed.setIfInBounds reg (some loc))
    (taken_kept : ∀ use ∈ state.taken, use ∈ next.taken) (frame_le : state.frame ≤ next.frame)
    (in_memory : ∃ offset, loc = .scratch offset ∨ loc = .stack offset)
    (in_pool : ∀ offset, loc = .scratch offset → (prob.MayPool reg ∧
        offset + (prob.graph.width reg).bytes ≤ prob.options.scratchSize ∧
        ⟨offset, (prob.graph.width reg).bytes, (prob.layout.interval reg).last⟩ ∈ next.taken) ∧
      isFree state.taken offset (prob.graph.width reg).bytes (prob.layout.interval reg) = true)
    (in_frame : ∀ offset, loc = .stack offset → state.frame ≤ offset ∧
      offset + (prob.graph.width reg).bytes ≤ next.frame) : prob.Spilled (reg :: done) next := by
  have own : next.placed.getD reg none = some loc := by
    simp_all
  have kept : ∀ other ∈ done, next.placed.getD other none = state.placed.getD other none := by
    intro other mem
    have different : other ≠ reg := by
      rintro rfl
      exact new mem
    rw [placed_eq, Placed.getD_set, if_neg fun same => different same.1]
  have own_eq {other : Loc} (placed_at : next.placed.getD reg none = some other) : loc = other :=
    Option.some.inj (own.symm.trans placed_at)
  constructor
  · refine forall_mem_cons.mpr ⟨?_, fun other mem => ?_⟩
    · simp_all
    · rw [kept other mem]
      exact spilled.given other mem
  · refine forall_mem_cons.mpr ⟨?_, fun other mem offset => ?_⟩
    · simp_all
    · rw [kept other mem]
      intro placed_at
      obtain ⟨allowed, fits, noted⟩ := spilled.pool other mem offset placed_at
      simp_all
  · refine forall_mem_cons.mpr ⟨?_, fun other mem offset => ?_⟩
    · simp_all
    · rw [kept other mem]
      exact fun placed_at => le_trans (spilled.frame other mem offset placed_at) frame_le
  · refine forall_mem_cons_of_symmetric ?_ ?_ ?_
    · intro first second apart overlaps
      rw [Interval.overlaps_comm] at overlaps
      exact (apart overlaps).symm
    · intro first first_mem second second_mem different overlaps
      exact bytesApart_of_keeps (kept first first_mem) (kept second second_mem)
        (spilled.pool_apart first first_mem second second_mem different overlaps)
    · intro other mem overlaps left right own_at other_at
      rw [kept other mem] at other_at
      simp only [Interval.overlaps, and_eq_true, decide_eq_true_eq] at overlaps
      have checked := all_eq_true.mp (in_pool left (own_eq own_at)).2 _
        (spilled.pool other mem right other_at).2.2
      grind
  · refine forall_mem_cons_of_symmetric (fun _ _ => BytesApart.symm) ?_ ?_
    · intro first first_mem second second_mem different
      exact bytesApart_of_keeps (kept first first_mem) (kept second second_mem)
        (spilled.frame_apart first first_mem second second_mem different)
    · intro other mem left right own_at other_at
      rw [kept other mem] at other_at
      have behind := (in_frame left (own_eq own_at)).1
      exact .inr (le_trans (spilled.frame other mem right other_at) behind)

theorem Spilled.step (new : reg ∉ done) (known : reg < state.placed.size) :
    prob.Spilled (reg :: done) (prob.spillOne state reg) := by
  unfold spillOne
  simp only
  -- A register gets free bytes of the pool, where the pool may be used, or new bytes of the frame.
  split
  · next offset chosen =>
    split at chosen
    · next allowed =>
      have admitted := List.find?_some chosen
      simp only [and_eq_true, decide_eq_true_eq] at admitted allowed
      have pooled : prob.MayPool reg := ⟨allowed.1, by simpa using allowed.2⟩
      refine spilled.extend new known rfl (fun _ => .tail _) le_rfl
        ⟨offset, .inl rfl⟩ ?_ (by rintro _ ⟨⟩)
      simp_all
    · cases chosen
  · refine spilled.extend new known rfl (fun _ => id) (le_add_right _ _)
      ⟨state.frame, .inr rfl⟩ (by rintro _ ⟨⟩) ?_
    simp

theorem Spilled.foldl (distinct : due.Nodup) (new : ∀ reg ∈ due, reg ∉ done)
    (known : ∀ reg ∈ due, reg < state.placed.size) :
    ∃ all, (∀ reg, reg ∈ all ↔ reg ∈ due ∨ reg ∈ done) ∧
      prob.Spilled all (due.foldl prob.spillOne state) := by
  induction due generalizing done state with
  | nil => exact ⟨done, by simp, spilled⟩
  | cons next rest ih =>
    obtain ⟨loc, _, placed_eq⟩ := spillOne_placed prob state next
    have stepped := spilled.step (new next (.head _)) (known next (.head _))
    grind

end

/-! ## Final places -/

section

variable (prob)

theorem left_subset : prob.left ⊆ prob.unplaced prob.precolor :=
  fun _ mem => (mergeSort_perm _ _).mem_iff.mp
    ((refused_sublist prob).subset ((refused_sublist prob).subset mem))

theorem left_nodup : prob.left.Nodup :=
  ((pending_nodup prob prob.precolor).sublist (refused_sublist prob)).sublist (refused_sublist prob)

end

/-- A register that may move and appears in the code gets a hardware register, or is left. -/
theorem reg_or_left (named : reg < prob.graph.vregs.size)
    (found : prob.layout.interval? reg = some interval)
    (movable : (prob.graph.info reg).fixed = none) :
    reg ∈ prob.left ∨ ∃ hw, prob.afterRounds.getD reg none = some (.reg hw) := by
  have distinct := pending_nodup prob prob.precolor
  have missing := precolor_missing movable
  have due : reg ∈ (prob.unplaced prob.precolor).mergeSort prob.before :=
    (mergeSort_perm _ _).mem_iff.mpr (by simp_all [unplaced])
  have missing : ∀ reg ∈ (prob.unplaced prob.precolor).mergeSort prob.before,
      prob.precolor.getD reg none = none := fun _ mem => pending_missing mem
  rw [afterRounds_eq]
  rcases placed_or_refused distinct due (prob.precolor_size ▸ named) with
    refused | ⟨hw, given⟩
  · refine placed_or_refused (distinct.sublist (refused_sublist prob)) refused ?_
    rwa [size_foldl_attempt, precolor_size]
  · refine .inr ⟨hw, (continues_of_open ?_).keeps reg _ given⟩
    refine open_of_nodup (distinct.sublist (refused_sublist prob)) fun reg mem => ?_
    grind [refused_missing]

section

variable (prob)

theorem exists_spilled : ∃ all, (∀ reg, reg ∈ all ↔ reg ∈ prob.left) ∧
      prob.Spilled all (prob.spill prob.afterRounds prob.left) := by
  have start : prob.Spilled [] { placed := prob.afterRounds } :=
    ⟨by simp, by simp, by simp, by simp, by simp⟩
  have known : ∀ reg ∈ prob.left, reg < prob.afterRounds.size := by
    intro reg mem
    have unplaced := prob.left_subset mem
    simp_all [AllocationProblem.unplaced, afterRounds_size]
  obtain ⟨all, all_iff, res⟩ := start.foldl
    ((mergeSort_perm prob.left _).nodup_iff.mpr prob.left_nodup) (by simp)
    fun reg mem => known reg ((mergeSort_perm _ _).mem_iff.mp mem)
  refine ⟨all, fun reg => ?_, res⟩
  simp_all

theorem solve_frameSize : prob.solve.frameSize = (prob.spill prob.afterRounds prob.left).frame := by
  simp only [solve, round_eq, afterRounds_eq, left]

end

theorem location_of_movable (movable : (prob.graph.info reg).fixed = none) :
    (∃ hw, prob.solve.location reg = .reg hw) ∨ (reg ∈ prob.left ∧
        (prob.spill prob.afterRounds prob.left).placed.getD reg none =
          some (prob.solve.location reg)) ∨
      reg ∉ prob.left ∧ prob.afterRounds.getD reg none = none ∧
        prob.solve.location reg = .nowhere := by
  cases given : prob.afterRounds.getD reg none with
  | some loc =>
    obtain ⟨hw, rfl⟩ := foldl_attempt_reg (precolor_missing movable) given
    simp_all [solve_location]
  | none =>
    rw [solve_location_eq]
    by_cases mem : reg ∈ prob.left
    · obtain ⟨all, all_iff, spilled⟩ := prob.exists_spilled
      obtain ⟨offset, placed_at | placed_at⟩ := spilled.given reg ((all_iff reg).mpr mem)
      all_goals simp_all
    · grind [spill, spillAll_keeps, mergeSort_perm]

section

variable (prob)

theorem spilled_of_location (movable : (prob.graph.info reg).fixed = none)
    (final : prob.solve.location reg = loc) (in_memory : loc.isMemory = true) :
    reg ∈ prob.left ∧ (prob.spill prob.afterRounds prob.left).placed.getD reg none = some loc := by
  subst final
  rcases location_of_movable movable with ⟨hw, final⟩ | spilled | ⟨_, _, final⟩
  · rw [final] at in_memory
    cases in_memory
  · exact spilled
  · rw [final] at in_memory
    cases in_memory

theorem not_overlapping_of_movable {left right : Interval} (different : first ≠ second)
    (movable : (prob.graph.info first).fixed = none)
    (first_final : prob.solve.location first = .reg hw)
    (second_final : prob.solve.location second = .reg hw)
    (first_found : prob.layout.interval? first = some left)
    (second_found : prob.layout.interval? second = some right) : left.overlaps right = false := by
  rw [Interval.overlaps_comm]
  exact (resident_of_location movable first_final).not_overlapping different.symm second_final
    first_found second_found

theorem lt_size_of_location (final : prob.solve.location reg = .reg hw) :
    reg < prob.graph.vregs.size := by
  rw [← afterRounds_size]
  exact lt_size_of_getD ((solve_location prob).2 hw final)

end

theorem lt_size_of_left (mem : reg ∈ prob.left) : reg < prob.graph.vregs.size := by
  have unplaced := prob.left_subset mem
  simp_all [AllocationProblem.unplaced]

end AllocationProblem

/-- Bytes of the scratch pool that hold the value of a register. -/
def Allocation.poolBytes (allocation : Allocation) (graph : Graph) (register : VReg) : List Nat :=
  match allocation.location register with
  | .scratch offset => List.range' offset (graph.width register).bytes
  | _ => []

/-- Bytes of the stack frame that hold the value of a register. -/
def Allocation.frameBytes (allocation : Allocation) (graph : Graph) (register : VReg) : List Nat :=
  match allocation.location register with
  | .stack offset => List.range' offset (graph.width register).bytes
  | _ => []

/-- Values that are needed at the same time have storage of their own, inside the limits. -/
structure Allocation.Separates (allocation : Allocation) (graph : Graph)
    (options : PlacementOptions) : Prop where
  registers : ∀ first second, first ≠ second → 1 ≤ first → 1 ≤ second →
    graph.Conflict first second → ∀ hardware, allocation.location first = .reg hardware →
      allocation.location second = .reg hardware →
      (graph.info first).fixed ≠ none ∧ (graph.info second).fixed ≠ none
  memory : ∀ first second, first ≠ second → 1 ≤ first → 1 ≤ second →
    graph.Conflict first second → (graph.info first).fixed = none →
      (graph.info second).fixed = none →
      (allocation.poolBytes graph first).Disjoint (allocation.poolBytes graph second) ∧
        (allocation.frameBytes graph first).Disjoint (allocation.frameBytes graph second)
  placed : ∀ register < graph.vregs.size, graph.Appears register →
    (graph.info register).fixed = none → allocation.location register ≠ .nowhere
  pool : ∀ register offset, (graph.info register).fixed = none →
    allocation.location register = .scratch offset →
      options.useScratch = true ∧ offset + (graph.width register).bytes ≤ options.scratchSize
  frame : ∀ register offset, (graph.info register).fixed = none →
    allocation.location register = .stack offset →
      offset + (graph.width register).bytes ≤ allocation.frameSize

theorem disjoint_range' {left right leftCount rightCount : Nat}
    (apart : left + leftCount ≤ right ∨ right + rightCount ≤ left) :
    (List.range' left leftCount).Disjoint (List.range' right rightCount) := by
  intro byte in_left in_right
  grind

namespace Graph

open AllocationProblem

variable (graph : Graph) (options : PlacementOptions)

section

variable (different : first ≠ second)
include different

theorem allocate_registers_apart (conflict : graph.Conflict first second)
    (first_final : (graph.allocate options).location first = .reg hw)
    (second_final : (graph.allocate options).location second = .reg hw) :
    (graph.info first).fixed ≠ none ∧ (graph.info second).fixed ≠ none := by
  let prob := ofGraph graph options
  obtain ⟨left, right, left_found, right_found, overlaps⟩ := conflict.overlapping
    (prob.lt_size_of_location first_final) (prob.lt_size_of_location second_final) different
  constructor
  · intro movable
    have apart := prob.not_overlapping_of_movable different movable first_final second_final
      left_found right_found
    rw [overlaps] at apart
    cases apart
  · intro movable
    have apart := prob.not_overlapping_of_movable different.symm movable second_final
      first_final right_found left_found
    simp_all [Interval.overlaps_comm]

theorem allocate_memory_disjoint (conflict : graph.Conflict first second)
    (first_movable : (graph.info first).fixed = none)
    (second_movable : (graph.info second).fixed = none) :
    ((graph.allocate options).poolBytes graph first).Disjoint
        ((graph.allocate options).poolBytes graph second) ∧
      ((graph.allocate options).frameBytes graph first).Disjoint
        ((graph.allocate options).frameBytes graph second) := by
  let prob := ofGraph graph options
  obtain ⟨all, all_iff, spilled⟩ := prob.exists_spilled
  unfold Allocation.poolBytes Allocation.frameBytes
  -- A value has bytes in the pool or in the frame only if it was spilled there.
  cases first_final : (graph.allocate options).location first <;>
    cases second_final : (graph.allocate options).location second <;>
    try (constructor <;> (simp; done))
  all_goals
    obtain ⟨first_left, first_at⟩ := prob.spilled_of_location first_movable first_final rfl
    obtain ⟨second_left, second_at⟩ := prob.spilled_of_location second_movable second_final rfl
  case scratch.scratch left right =>
    obtain ⟨own, other, own_found, other_found, overlaps⟩ : graph.Overlapping first second :=
      conflict.overlapping (lt_size_of_left first_left) (lt_size_of_left second_left) different
    refine ⟨disjoint_range' (spilled.pool_apart first ((all_iff first).mpr first_left) second
      ((all_iff second).mpr second_left) different ?_ left right first_at second_at), by simp⟩
    change ((graph.slotLayout graph.liveness).interval first).overlaps
      ((graph.slotLayout graph.liveness).interval second) = true
    simp_all [SlotLayout.interval]
  case stack.stack left right =>
    exact ⟨by simp, disjoint_range' (spilled.frame_apart first ((all_iff first).mpr first_left)
      second ((all_iff second).mpr second_left) different left right first_at second_at)⟩

end

theorem allocate_placed (known : reg < graph.vregs.size)
    (appears : graph.Appears reg) (movable : (graph.info reg).fixed = none) :
    (graph.allocate options).location reg ≠ .nowhere := by
  let prob := ofGraph graph options
  obtain ⟨id, idx, slot, found, named⟩ := appears
  obtain ⟨interval, interval_found, _⟩ := reaches_slot graph.liveness found named known
  intro nowhere
  rcases prob.location_of_movable movable with
    ⟨hw, final⟩ | ⟨left, spilled_at⟩ | ⟨not_left, missing, _⟩
  · cases nowhere.symm.trans final
  · obtain ⟨all, all_iff, spilled⟩ := prob.exists_spilled
    have final : prob.solve.location reg = .nowhere := nowhere
    obtain ⟨offset, given | given⟩ := spilled.given reg ((all_iff reg).mpr left)
    all_goals simp_all
  · rcases prob.reg_or_left known interval_found movable with left | ⟨hw, given⟩
    all_goals simp_all

theorem allocate_mayPool (movable : (graph.info reg).fixed = none)
    (final : (graph.allocate options).location reg = .scratch offset) :
    (ofGraph graph options).MayPool reg ∧
      offset + (graph.width reg).bytes ≤ options.scratchSize := by
  obtain ⟨all, all_iff, spilled⟩ := (ofGraph graph options).exists_spilled
  obtain ⟨left, placed_at⟩ := (ofGraph graph options).spilled_of_location movable final rfl
  obtain ⟨allowed, fits, _⟩ := spilled.pool reg ((all_iff reg).mpr left) offset placed_at
  exact ⟨allowed, fits⟩

theorem allocate_separates : (graph.allocate options).Separates graph options where
  registers _ _ different _ _ conflict _ first_final second_final :=
    graph.allocate_registers_apart options different conflict first_final second_final
  memory _ _ different _ _ conflict first_movable second_movable :=
    graph.allocate_memory_disjoint options different conflict first_movable second_movable
  placed _ known appears movable := graph.allocate_placed options known appears movable
  pool register offset movable final := by
    obtain ⟨allowed, fits⟩ := graph.allocate_mayPool options movable final
    exact ⟨allowed.1, fits⟩
  frame register offset movable final := by
    obtain ⟨all, all_iff, spilled⟩ := (ofGraph graph options).exists_spilled
    obtain ⟨left, placed_at⟩ :=
      (ofGraph graph options).spilled_of_location movable final rfl
    rw [Graph.allocate, solve_frameSize]
    exact spilled.frame register ((all_iff register).mpr left) offset placed_at

end Graph

end Backend65816
