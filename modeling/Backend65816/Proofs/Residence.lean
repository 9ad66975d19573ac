import Mathlib.Data.List.Basic
import Mathlib.Tactic.ByContra
import Mathlib.Tactic.Push
import Backend65816.Proofs.SettledWrites
import Backend65816.Proofs.SlotReach

/-!
# Values that stay in their registers

Allocation gives places one after the other and never takes one back. A value is put in a hardware
register when no slot inside its interval is assumed to write that register, against the places
given so far. The main result says when this is still true of the final places: always, except at
copies through the accumulator between two registers that looked like one place at that time.
-/

namespace Backend65816

open Array List Placed

variable {held : Interval} {index : Nat} {hardware : Reg} {slot : Slot} {state : Spill}
  {other : VReg}

namespace AllocationProblem

variable (problem : AllocationProblem)

def attempt (placed : Placed) (register : VReg) : Placed :=
  (problem.place? placed register).getD placed

/-- The registers that a round leaves without a place. -/
def refused : List VReg → Placed → List VReg
  | [], _ => []
  | register :: rest, placed =>
    match problem.place? placed register with
    | some next => refused rest next
    | none => register :: refused rest placed

/-- The registers in the order in which they are tried, over both rounds. -/
def attempts : List VReg :=
  let pending := (problem.unplaced problem.precolor).mergeSort problem.before
  pending ++ problem.refused pending problem.precolor

/-- The places that are given when a register gets its own, from some places on. -/
def placedFrom (register : VReg) : List VReg → Placed → Placed
  | [], placed => placed
  | next :: rest, placed =>
    if ((problem.attempt placed next).getD register none).isSome then placed
    else placedFrom register rest (problem.attempt placed next)

/-- The places that had been given when a register got its own. -/
def placedBefore (register : VReg) : Placed :=
  problem.placedFrom register problem.attempts problem.precolor

/-- Every register that is tried has no place at that time. -/
def Open : List VReg → Placed → Prop
  | [], _ => True
  | register :: rest, placed =>
    placed.getD register none = none ∧ Open rest (problem.attempt placed register)

/-- What tries leave alone: places that are given stay, and a register that gets the hardware
register of another one conflicts with none that had it before. -/
structure Continues (earlier later : Placed) : Prop where
  keeps : ∀ register location, earlier.getD register none = some location →
    later.getD register none = some location
  /-- Later registers share a hardware register only with intervals they do not overlap. -/
  apart : ∀ holder register hardware held, earlier.getD holder none = some (.reg hardware) →
    earlier.getD register none = none → later.getD register none = some (.reg hardware) →
    problem.layout.interval? holder = some held →
    held.overlaps (problem.layout.interval register) = false

end AllocationProblem

theorem Placed.getD_set (placed : Placed) (register other : VReg) (location : Loc) :
    Array.getD (placed.setIfInBounds register (some location)) other none =
      if other = register ∧ register < placed.size then some location
      else placed.getD other none := by
  simp only [getD_eq_getD_getElem?]
  grind

namespace AllocationProblem

variable {problem : AllocationProblem} {placed : Placed} {register : VReg}

variable {tried due : List VReg}

theorem attempt_cases (problem : AllocationProblem) (placed : Placed) (register : VReg) :
    problem.attempt placed register = placed ∨
      ∃ hardware, hardware ≠ .b ∧ problem.fits placed register hardware = true ∧
        problem.attempt placed register = placed.setIfInBounds register (some (.reg hardware)) := by
  unfold attempt place?
  cases found : (problem.candidates placed register).find? (problem.fits placed register) with
  | none => exact .inl rfl
  | some hardware =>
    have candidate := mem_of_find?_eq_some found
    simp only [candidates, mem_eraseDups] at candidate
    grind

theorem attempt_getD_of_ne (different : other ≠ register) :
    (problem.attempt placed register).getD other none = placed.getD other none := by
  rcases attempt_cases problem placed register with same | ⟨hardware, _, _, changed⟩
  · rw [same]
  · rw [changed, getD_set, if_neg fun equal => different equal.1]

theorem lt_size_of_getD {location : Loc} (given : placed.getD register none = some location) :
    register < placed.size := by
  grind

theorem not_held_of_fits (fits : problem.fits placed register hardware = true) {holder : VReg}
    (holds : placed.getD holder none = some (.reg hardware))
    (found : problem.layout.interval? holder = some held) :
    held.overlaps (problem.layout.interval register) = false := by
  simp only [AllocationProblem.fits] at fits
  grind [isHeld]

theorem continues_refl (problem : AllocationProblem) (placed : Placed) :
    problem.Continues placed placed where
  keeps _ _ given := given
  apart _ _ _ _ _ missing given := by
    rw [missing] at given
    cases given

theorem Continues.trans {first second third : Placed} (left : problem.Continues first second)
    (right : problem.Continues second third) : problem.Continues first third where
  keeps register location given := right.keeps register location (left.keeps _ _ given)
  apart holder register hardware held holds missing given found := by
    cases mid : second.getD register none with
    | none =>
      exact right.apart holder register hardware held (left.keeps _ _ holds) mid given found
    | some location =>
      have kept := right.keeps register location mid
      rw [given] at kept
      obtain rfl := Option.some.inj kept
      exact left.apart holder register hardware held holds missing mid found

theorem continues_attempt (missing : placed.getD register none = none) :
    problem.Continues placed (problem.attempt placed register) := by
  rcases attempt_cases problem placed register with same | ⟨hardware, _, fits, changed⟩
  · simp_all [continues_refl]
  · constructor
    · grind [attempt_getD_of_ne]
    · intro holder other taken held holds other_missing given found
      by_cases same : other = register
      · subst other
        rw [changed, getD_set] at given
        split at given
        · obtain rfl : hardware = taken := by simpa using given
          exact not_held_of_fits fits holds found
        · simp_all
      · grind [attempt_getD_of_ne]

theorem continues_of_open (untouched : problem.Open tried placed) :
    problem.Continues placed (tried.foldl problem.attempt placed) := by
  induction tried generalizing placed with
  | nil => exact continues_refl problem placed
  | cons next rest ih =>
    obtain ⟨missing, remaining⟩ := untouched
    exact (continues_attempt missing).trans (ih remaining)

theorem open_append {front back : List VReg} (front_open : problem.Open front placed)
    (back_open : problem.Open back (front.foldl problem.attempt placed)) :
    problem.Open (front ++ back) placed := by
  induction front generalizing placed with
  | nil => exact back_open
  | cons next rest ih => exact ⟨front_open.1, ih front_open.2 back_open⟩

theorem open_of_nodup (distinct : tried.Nodup)
    (missing : ∀ register ∈ tried, placed.getD register none = none) :
    problem.Open tried placed := by
  induction tried generalizing placed with
  | nil => trivial
  | cons next rest ih =>
    obtain ⟨not_later, rest_distinct⟩ := nodup_cons.mp distinct
    refine ⟨missing next (by simp), ih rest_distinct fun register mem => ?_⟩
    have different : register ≠ next := by
      rintro rfl
      exact not_later mem
    rw [attempt_getD_of_ne different, missing register (.tail next mem)]

section

variable (problem)

theorem round_eq (placed : Placed) (due : List VReg) :
    problem.round placed due = (due.foldl problem.attempt placed, problem.refused due placed) := by
  have general : ∀ (due : List VReg) (placed : Placed) (left : List VReg), due.foldl
        (fun (state : Placed × List VReg) register =>
          match problem.place? state.1 register with
          | some placed => (placed, state.2)
          | none => (state.1, register :: state.2))
        (placed, left) =
      (due.foldl problem.attempt placed, (problem.refused due placed).reverse ++ left) := by
    intro due
    induction due with
    | nil => intro placed left; rfl
    | cons next rest ih =>
      intro placed left
      simp only [List.foldl_cons, refused, attempt]
      cases problem.place? placed next with
      | some after => exact ih after left
      | none => simp [ih]
  have folded := general due placed []
  have given := congrArg Prod.fst folded
  have left := congrArg (fun state : Placed × List VReg => state.2.reverse) folded
  rw [List.append_nil, List.reverse_reverse] at left
  exact Prod.ext given left

theorem refused_sublist : (problem.refused due placed).Sublist due := by
  induction due generalizing placed with
  | nil => exact .slnil
  | cons next rest ih =>
    grind [refused]

end

theorem foldl_attempt_of_notMem {others : List VReg} (absent : register ∉ others) :
    (others.foldl problem.attempt placed).getD register none = placed.getD register none := by
  induction others generalizing placed with
  | nil => rfl
  | cons next rest ih =>
    rw [List.mem_cons, not_or] at absent
    rw [foldl_cons, ih absent.2, attempt_getD_of_ne absent.1]

theorem refused_missing (distinct : due.Nodup)
    (missing : ∀ register ∈ due, placed.getD register none = none)
    (mem : register ∈ problem.refused due placed) :
    (due.foldl problem.attempt placed).getD register none = none := by
  induction due generalizing placed with
  | nil => cases mem
  | cons next rest ih =>
    obtain ⟨not_later, rest_distinct⟩ := nodup_cons.mp distinct
    have rest_missing : ∀ register ∈ rest,
        (problem.attempt placed next).getD register none = none := by
      grind [attempt_getD_of_ne]
    rw [foldl_cons]
    simp only [refused] at mem
    cases res : problem.place? placed next with
    | some after =>
      grind [attempt]
    | none =>
      have same : problem.attempt placed next = placed := by simp [attempt, res]
      rw [res, mem_cons] at mem
      rcases mem with rfl | later
      · rw [foldl_attempt_of_notMem not_later, same, missing register (by simp)]
      · rw [same] at rest_missing ⊢
        exact ih rest_distinct rest_missing later

/-- The try that places a register: before it the register has no place, and what it gets fits. -/
theorem placedFrom_spec (missing : placed.getD register none = none)
    (untouched : problem.Open tried placed)
    (given : (tried.foldl problem.attempt placed).getD register none = some (.reg hardware)) :
    (problem.placedFrom register tried placed).getD register none = none ∧ hardware ≠ .b ∧
      problem.fits (problem.placedFrom register tried placed) register hardware = true ∧
      register < (problem.placedFrom register tried placed).size ∧
      problem.Continues
        ((problem.placedFrom register tried placed).setIfInBounds register (some (.reg hardware)))
        (tried.foldl problem.attempt placed) := by
  induction tried generalizing placed with
  | nil =>
    simp_all
  | cons next rest ih =>
    obtain ⟨next_missing, remaining⟩ := untouched
    rw [foldl_cons] at given ⊢
    simp only [placedFrom]
    split
    · next now =>
      have same : next = register := by
        by_contra different
        rw [attempt_getD_of_ne (Ne.symm different), missing] at now
        cases now
      subst next
      have kept := continues_of_open remaining
      rcases attempt_cases problem placed register with
        unchanged | ⟨taken, not_high, fits, changed⟩
      · simp_all
      · rw [changed] at now kept given ⊢
        have known : register < placed.size := by
          by_contra unknown
          rw [getD_set, if_neg fun both => unknown both.2, missing] at now
          cases now
        have taken_given : (rest.foldl problem.attempt
            (placed.setIfInBounds register (some (.reg taken)))).getD register none =
              some (.reg taken) := by
          apply kept.keeps
          simp_all
        rw [given] at taken_given
        obtain rfl : hardware = taken := by simpa using taken_given
        exact ⟨missing, not_high, fits, known, kept⟩
    · next later =>
      have still_missing : (problem.attempt placed next).getD register none = none := by
        simpa using later
      exact ih still_missing remaining given

theorem unplaced_nodup (problem : AllocationProblem) (placed : Placed) :
    (problem.unplaced placed).Nodup :=
  List.nodup_range.filter _

theorem unplaced_missing (mem : register ∈ problem.unplaced placed) :
    placed.getD register none = none := by
  simp_all [unplaced]

theorem pending_nodup (problem : AllocationProblem) (placed : Placed) :
    ((problem.unplaced placed).mergeSort problem.before).Nodup :=
  (mergeSort_perm _ _).nodup_iff.mpr (unplaced_nodup problem placed)

theorem pending_missing (mem : register ∈ (problem.unplaced placed).mergeSort problem.before) :
    placed.getD register none = none :=
  unplaced_missing ((mergeSort_perm _ _).mem_iff.mp mem)

section

variable (problem)

theorem open_attempts : problem.Open problem.attempts problem.precolor := by
  have distinct := pending_nodup problem problem.precolor
  apply open_append
  · exact open_of_nodup distinct fun register mem => pending_missing mem
  · apply open_of_nodup
    · exact distinct.sublist (refused_sublist problem)
    · intro register mem
      exact refused_missing distinct (fun register mem => pending_missing mem) mem

/-- A register that goes to memory gets a place in the scratch pool or in the frame. -/
theorem spillOne_placed (state : Spill) (register : VReg) : ∃ location, location.isReg = false ∧
      (problem.spillOne state register).placed =
        state.placed.setIfInBounds register (some location) := by
  simp only [spillOne]
  split
  · exact ⟨_, rfl, rfl⟩
  · exact ⟨_, rfl, rfl⟩

end

theorem spillAll_keeps (absent : register ∉ due) :
    (due.foldl problem.spillOne state).placed.getD register none =
      state.placed.getD register none := by
  induction due generalizing state with
  | nil => rfl
  | cons next rest ih =>
    rw [List.mem_cons, not_or] at absent
    obtain ⟨location, _, changed⟩ := spillOne_placed problem state next
    rw [foldl_cons, ih absent.2, changed, getD_set, if_neg fun equal => absent.1 equal.1]

theorem spillAll_reg
    (given : (due.foldl problem.spillOne state).placed.getD register none = some (.reg hardware)) :
    state.placed.getD register none = some (.reg hardware) := by
  induction due generalizing state with
  | nil => exact given
  | cons next rest ih =>
    obtain ⟨location, not_register, changed⟩ := spillOne_placed problem state next
    have earlier := ih given
    rw [changed, getD_set] at earlier
    all_goals grind [Loc.isReg]

def afterRounds (problem : AllocationProblem) : Placed :=
  problem.attempts.foldl problem.attempt problem.precolor

section

variable (problem)

theorem size_foldl_attempt (tried : List VReg) (placed : Placed) :
    (tried.foldl problem.attempt placed).size = placed.size := by
  induction tried generalizing placed with
  | nil => rfl
  | cons next rest ih =>
    rcases attempt_cases problem placed next with same | ⟨hardware, _, _, changed⟩
    all_goals simp_all

theorem precolor_size : problem.precolor.size = problem.graph.vregs.size := by
  rw [precolor, size_mapIdx]

theorem afterRounds_size : problem.afterRounds.size = problem.graph.vregs.size := by
  rw [afterRounds, size_foldl_attempt, precolor_size]

def left (problem : AllocationProblem) : List VReg :=
  let pending := (problem.unplaced problem.precolor).mergeSort problem.before
  problem.refused (problem.refused pending problem.precolor)
    (pending.foldl problem.attempt problem.precolor)

theorem afterRounds_eq : problem.afterRounds =
      (problem.refused ((problem.unplaced problem.precolor).mergeSort problem.before)
        problem.precolor).foldl problem.attempt
          (((problem.unplaced problem.precolor).mergeSort problem.before).foldl problem.attempt
            problem.precolor) :=
  foldl_append

end

theorem left_missing (mem : register ∈ problem.left) :
    problem.afterRounds.getD register none = none := by
  have distinct := pending_nodup problem problem.precolor
  rw [afterRounds_eq]
  apply refused_missing (distinct.sublist (refused_sublist problem))
  · grind [refused_missing, pending_missing]
  · exact mem

section

variable (problem)

theorem solve_location_eq (register : VReg) : problem.solve.location register =
      ((problem.spill problem.afterRounds problem.left).placed.getD register none).getD
        .nowhere := by
  simp only [solve, Allocation.location, round_eq, getD_eq_getD_getElem?, afterRounds_eq,
    Array.getElem?_map, left]
  grind

/-- A final place was given in a round, or is the place in memory of a register that both rounds
refused. -/
theorem solve_location :
    (∀ location, problem.afterRounds.getD register none = some location →
      problem.solve.location register = location) ∧
    (∀ hardware, problem.solve.location register = .reg hardware →
      problem.afterRounds.getD register none = some (.reg hardware)) := by
  rw [solve_location_eq]
  constructor
  · grind [left_missing, spill, spillAll_keeps, List.mergeSort_perm]
  · intro hardware final
    cases res : (problem.spill problem.afterRounds problem.left).placed.getD register none with
    | none =>
      rw [res] at final
      cases final
    | some location =>
      rw [res] at final
      subst final
      exact spillAll_reg res

end

/-- A register in a hardware register fitted there when it got it, and all later places keep to
that. -/
structure Resident (problem : AllocationProblem) (register : VReg) (hardware : Reg) : Prop where
  missing : (problem.placedBefore register).getD register none = none
  not_high : hardware ≠ .b
  fits : problem.fits (problem.placedBefore register) register hardware = true
  known : register < (problem.placedBefore register).size
  continues : problem.Continues
    ((problem.placedBefore register).setIfInBounds register (some (.reg hardware)))
    problem.afterRounds

theorem precolor_missing (movable : (problem.graph.info register).fixed = none) :
    problem.precolor.getD register none = none := by
  simp only [precolor, getD_eq_getD_getElem?, Array.getElem?_mapIdx]
  cases entry : problem.graph.vregs[register]? with
  | none => rfl
  | some info =>
    simp_all [Graph.info]

theorem resident_of_location (movable : (problem.graph.info register).fixed = none)
    (placed : problem.solve.location register = .reg hardware) :
    problem.Resident register hardware := by
  have given := (solve_location problem).2 hardware placed
  obtain ⟨missing, not_high, fits, known, continues⟩ :=
    placedFrom_spec (precolor_missing movable) (open_attempts problem) given
  exact ⟨missing, not_high, fits, known, continues⟩

namespace Resident

/-- The places that the decision for a register was made against. -/
abbrev view (problem : AllocationProblem) (register : VReg) (hardware : Reg) : Placement :=
  Placed.assumed ((problem.placedBefore register).setIfInBounds register (some (.reg hardware)))

theorem view_of_ne (different : other ≠ register) :
    view problem register hardware other = (problem.placedBefore register).assumed other := by
  rw [view, Placed.assumed, getD_set, if_neg fun equal => different equal.1]
  rfl

section

variable (resident : problem.Resident register hardware)
include resident

theorem view_self : view problem register hardware register = .reg hardware := by
  rw [view, Placed.assumed, getD_set, if_pos ⟨rfl, resident.known⟩]
  rfl

theorem settles (other : VReg) :
    Settles (view problem register hardware other) (problem.solve.location other) := by
  cases seen : ((problem.placedBefore register).setIfInBounds register
      (some (.reg hardware))).getD other none with
  | none =>
    right
    rw [view, Placed.assumed, seen, Option.getD_none]
  | some location =>
    left
    rw [view, Placed.assumed, seen]
    exact (solve_location problem).1 location (resident.continues.keeps _ _ seen)

/-- The interval of another register in the same hardware register does not overlap. -/
theorem not_overlapping (different : other ≠ register)
    (final : problem.solve.location other = .reg hardware)
    {own : Interval} (own_found : problem.layout.interval? register = some own)
    (held_found : problem.layout.interval? other = some held) : held.overlaps own = false := by
  have given := (solve_location problem).2 hardware final
  have own_eq : problem.layout.interval register = own := by
    rw [SlotLayout.interval, own_found, Option.getD_some]
  have held_eq : problem.layout.interval other = held := by
    rw [SlotLayout.interval, held_found, Option.getD_some]
  cases early : (problem.placedBefore register).getD other none with
  | some location =>
    have view_holds := resident.continues.keeps other location (by
      rw [getD_set, if_neg fun equal => different equal.1, early])
    rw [given] at view_holds
    obtain rfl := Option.some.inj view_holds
    rw [← own_eq]
    exact not_held_of_fits resident.fits early held_found
  | none =>
    have disjoint := resident.continues.apart register other hardware own
      (by rw [Placed.getD_set, if_pos ⟨rfl, resident.known⟩])
      (by rw [getD_set, if_neg fun equal => different equal.1, early])
    simp_all [Interval.overlaps, Bool.and_comm]

variable (found : problem.layout.slots[index]? = some slot)
  (inside : (problem.layout.interval register).contains (slotPosition index) = true)
include found inside

/-- What a slot inside the interval of a register defines is not in its hardware register. -/
theorem apart (sound : problem.layout.Sound problem.graph.vregs.size) {target : VReg}
    (defined : target ∈ slot.defs) (different : target ≠ register) :
    (problem.solve.location target).mask.has hardware = false := by
  cases final : problem.solve.location target with
  | reg other =>
    rw [Loc.mask, RegMask.has_single, beq_eq_false_iff_ne]
    rintro rfl
    have given := (solve_location problem).2 other final
    have known : target < problem.layout.intervals.size := by
      grind [afterRounds_size, sound.size]
    obtain ⟨held, held_found, first_le, le_last⟩ :=
      sound.covers index slot found target (mem_append_right _ defined) known
    simp only [Interval.contains] at inside
    cases own : problem.layout.interval? register with
    | none =>
      grind [SlotLayout.interval]
    | some interval =>
      rw [SlotLayout.interval] at inside
      have disjoint := resident.not_overlapping different final own held_found
      grind [Interval.overlaps]
  | _ => simp [Loc.mask]

theorem view_unwritten (not_defined : register ∉ slot.defs) :
    (slotWrites problem.graph (view problem register hardware) slot).has hardware = false := by
  have fits := resident.fits
  simp only [AllocationProblem.fits, Bool.and_eq_true, List.all_eq_true] at fits
  have checked := fits.2 slot (mem_slotsInside found inside)
  simpa [not_defined] using checked

end

end Resident

/-- Once places are known, a slot writes nothing that it was not assumed to write, the places of
its results apart, unless it copies between two registers that looked like one place. -/
theorem has_slotWrites_of_settles {graph : Graph} {assumed final : Placement}
    (settled : ∀ register, Settles (assumed register) (final register))
    (apart : ∀ target ∈ slot.defs, (final target).mask.has hardware = false)
    (copied : ∀ position target source,
      slot.content = .action position (.move target source) → assumed target ≠ assumed source)
    (written : (slotWrites graph final slot).has hardware = true) :
    (slotWrites graph assumed slot).has hardware = true := by
  obtain ⟨block, content⟩ := slot
  cases content with
  | action position action =>
    apply Graph.has_writes_of_settles settled apart _ written
    simp_all
  | terminator ending =>
    cases ending with
    | none => exact written
    | some terminator => exact Graph.has_terminatorWrites_of_settles settled written

end AllocationProblem

open AllocationProblem

/-- A hardware register that holds a value is written inside the interval of the value by nothing
but copies through the accumulator whose two sides counted as one place when the value got its
register, and these do write it. -/
theorem Graph.allocate_writes_inside_iff (graph : Graph) (options : PlacementOptions)
    {register : VReg} {hardware : Reg} {index : Nat} {slot : Slot}
    (movable : (graph.info register).fixed = none)
    (placed : (graph.allocate options).location register = .reg hardware)
    (found : (graph.slotLayout graph.liveness).slots[index]? = some slot)
    (inside : ((graph.slotLayout graph.liveness).interval register).contains
      (slotPosition index) = true)
    (not_defined : register ∉ slot.defs) :
    (slotWrites graph (graph.allocate options).location slot).has hardware = true ↔
      hardware = .a ∧ ∃ position target source,
        slot.content = .action position (.move target source) ∧
        CopiesThroughAccumulator ((graph.allocate options).location target)
          ((graph.allocate options).location source) (graph.width target) ∧
        ((ofGraph graph options).placedBefore register).assumed target =
          ((ofGraph graph options).placedBefore register).assumed source := by
  let problem := ofGraph graph options
  have resident : problem.Resident register hardware := resident_of_location movable placed
  have apart : ∀ target ∈ slot.defs,
      ((graph.allocate options).location target).mask.has hardware = false := by
    intro target defined
    have different : target ≠ register := by
      rintro rfl
      exact not_defined defined
    exact resident.apart found inside graph.slotLayout_sound defined different
  constructor
  · intro written
    by_cases copied : ∀ position target source,
        slot.content = .action position (.move target source) →
          Resident.view problem register hardware target ≠
            Resident.view problem register hardware source
    · have assumed_written := has_slotWrites_of_settles resident.settles apart copied written
      have unwritten := resident.view_unwritten found inside not_defined
      exact absurd assumed_written (Bool.eq_false_iff.mp unwritten)
    · push Not at copied
      obtain ⟨position, target, source, content_eq, looked_same⟩ := copied
      have defined : target ∈ slot.defs := by
        simp [Slot.defs, content_eq, Action.defs]
      rw [slotWrites, content_eq] at written
      obtain ⟨copies, accumulator⟩ := (has_moveWrites_iff (apart target defined)).mp written
      have target_ne : target ≠ register := by
        rintro rfl
        exact not_defined defined
      have source_ne : source ≠ register := by
        rintro rfl
        rw [resident.view_self] at looked_same
        have settled := (resident.settles target).eq_reg looked_same
        have masked := apart target defined
        change (problem.solve.location target).mask.has hardware = false at masked
        rw [settled, Loc.mask, RegMask.has_single, beq_self_eq_true] at masked
        cases masked
      refine ⟨(has_accumulatorWrites accumulator).resolve_right resident.not_high,
        position, target, source, content_eq, copies, ?_⟩
      rw [← Resident.view_of_ne target_ne, looked_same, Resident.view_of_ne source_ne]
  · rintro ⟨rfl, position, target, source, content_eq, copies, _⟩
    rw [slotWrites, content_eq]
    simp only [Graph.writes]
    rw [copies.moveWrites_eq, RegMask.has_union, has_a_accumulatorWrites, Bool.true_or]

/-- A byte is kept while another one is copied, and both index registers are taken. -/
def crossedCopy : Graph where
  name := "copy"
  blocks := #[{
    actions := [
      .params [1, 2], .const 4 7, .const 3 5, .move 5 4, .store { symbol := "out" } (.reg 3),
      .store { symbol := "out" } (.reg 4), .store { symbol := "out" } (.reg 5)]
    terminator := some (.giveBack [1, 2]) }]
  vregs := #[
    {}, { width := .word, fixed := some (.reg .x) }, { width := .word, fixed := some (.reg .y) },
    { width := .byte, hint := some .a }, { width := .byte }, { width := .byte }]

/-- The copy overwrites the byte that is kept: when that byte was given the accumulator, the copied
register and its copy had no place yet and looked like one. -/
theorem crossedCopy_writes_inside : (crossedCopy.allocate ⟨16, true⟩).location 3 = .reg .a ∧
      ((crossedCopy.slotLayout crossedCopy.liveness).interval 3).contains (slotPosition 3) = true ∧
      ∃ slot, (crossedCopy.slotLayout crossedCopy.liveness).slots[3]? = some slot ∧ 3 ∉ slot.defs ∧
        (slotWrites crossedCopy (crossedCopy.allocate ⟨16, true⟩).location slot).has .a = true := by
  let problem := ofGraph crossedCopy ⟨16, true⟩
  -- the registers are in order already, so that nothing has to be sorted
  have pending : (problem.unplaced problem.precolor).mergeSort problem.before = [3, 4, 5] :=
    (List.mergeSort_of_pairwise (by decide +kernel)).trans (by decide +kernel)
  have refused : problem.refused [3, 4, 5] problem.precolor = [4, 5] := by decide +kernel
  have tries : problem.attempts = [3, 4, 5, 4, 5] := by
    rw [attempts, pending, refused]
    rfl
  have spilled : problem.left = [4, 5] := by
    rw [left, pending, refused]
    decide +kernel
  have located (register : VReg) : (crossedCopy.allocate ⟨16, true⟩).location register =
      (([4, 5].foldl problem.spillOne
        { placed := [3, 4, 5, 4, 5].foldl problem.attempt problem.precolor }).placed.getD register
          none).getD .nowhere := by
    rw [← tries]
    refine (solve_location_eq problem register).trans ?_
    rw [spilled, spill, List.mergeSort_of_pairwise (by decide +kernel)]
    rfl
  have placed : (crossedCopy.allocate ⟨16, true⟩).location 3 = .reg .a :=
    (located 3).trans (by decide +kernel)
  have inside : ((crossedCopy.slotLayout crossedCopy.liveness).interval 3).contains
      (slotPosition 3) = true := by
    decide +kernel
  have found : (crossedCopy.slotLayout crossedCopy.liveness).slots[3]? =
      some ⟨0, .action 3 (.move 5 4)⟩ := by
    decide +kernel
  have target_placed : (crossedCopy.allocate ⟨16, true⟩).location 5 = .scratch 1 :=
    (located 5).trans (by decide +kernel)
  have source_placed : (crossedCopy.allocate ⟨16, true⟩).location 4 = .scratch 0 :=
    (located 4).trans (by decide +kernel)
  have looked_same : ((ofGraph crossedCopy ⟨16, true⟩).placedBefore 3).assumed 5 =
      ((ofGraph crossedCopy ⟨16, true⟩).placedBefore 3).assumed 4 := by
    rw [placedBefore, show (ofGraph crossedCopy ⟨16, true⟩).attempts = _ from tries]
    decide +kernel
  refine ⟨placed, inside, _, found, by decide,
    (crossedCopy.allocate_writes_inside_iff ⟨16, true⟩ rfl placed found inside (by decide)).mpr
      ⟨rfl, 3, 5, 4, rfl, ?_, looked_same⟩⟩
  rw [target_placed, source_placed]
  exact ⟨by decide, by decide, by decide, by decide, by decide, by decide, by decide⟩

end Backend65816
