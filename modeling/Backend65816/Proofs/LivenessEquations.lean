import Mathlib.Algebra.Order.BigOperators.Group.Finset
import Backend65816.Placement.Liveness

/-!
# The liveness equations

Sweeps start with empty sets and only ever add registers that some block reads. So there are finitely
many sweeps that change something, and the sets at the end solve the equations: a block needs at its
end what its successors need at their start, and at its start what it reads first and what it leaves
alone of that.
-/

namespace Backend65816

open List Nat Array

variable {successors : List BlockId} {left right : RegSet}

theorem RegSet.mem_toList {set : RegSet} {reg : VReg} :
    reg ∈ set.toList ↔ set.contains reg = true := by
  simp only [RegSet.toList, List.mem_filter, List.mem_range, and_iff_right_iff_imp]
  by_contra beyond
  have small : set.bits < 2 ^ reg :=
    Nat.lt_of_lt_of_le Nat.lt_log2_self (Nat.pow_le_pow_right Nat.two_pos (by omega))
  simp_all [RegSet.contains, testBit_lt_two_pow]

namespace Liveness

variable {register : VReg}

theorem contains_needed {live : Liveness} : (live.needed successors).contains reg = true ↔
      ∃ successor ∈ successors, (live.atStart successor).contains reg = true := by
  have general (set : RegSet) :
      (successors.foldl (fun set successor => set.union (live.atStart successor)) set).contains
          reg = true ↔
        set.contains reg = true ∨
          ∃ successor ∈ successors, (live.atStart successor).contains reg = true := by
    induction successors generalizing set with
    | nil => simp
    | cons successor rest ih =>
      rw [foldl_cons, ih, RegSet.contains_union, Bool.or_eq_true, exists_mem_cons_iff, or_assoc]
  rw [needed, general]
  simp

variable (graph : Graph) (effects : Array BlockEffect)

/-- What a block needs at its start, given what its successors need. -/
def demand (live : Liveness) (id : BlockId) : RegSet :=
  (effects.getD id {}).uses.union
    ((live.needed (graph.successors id)).diff (effects.getD id {}).defs)

def Balanced (live : Liveness) (id : BlockId) : Prop :=
  live.demand graph effects id = live.atStart id ∧
    live.needed (graph.successors id) = live.atEnd id

/-- Every register of one solution is in another one. -/
structure Within (left right : Liveness) : Prop where
  atStart : ∀ id register, (left.atStart id).contains register = true →
    (right.atStart id).contains register = true
  atEnd : ∀ id register, (left.atEnd id).contains register = true →
    (right.atEnd id).contains register = true

/-- Registers that some block reads before it writes them. -/
def usedRegisters : Finset VReg := (effects.toList.flatMap (·.uses.toList)).toFinset

def weight (live : Liveness) : Nat :=
  ∑ id ∈ Finset.range graph.blocks.size,
    (((usedRegisters effects).filter fun register => (live.atStart id).contains register).card +
      ((usedRegisters effects).filter fun register => (live.atEnd id).contains register).card)

/-- What holds between updates: the equations would only add registers, and all of them are read by
some block. -/
structure Rising (live : Liveness) : Prop where
  start_size : live.liveIn.size = graph.blocks.size
  end_size : live.liveOut.size = graph.blocks.size
  start_demand : ∀ id register, (live.atStart id).contains register = true →
    (live.demand graph effects id).contains register = true
  end_needed : ∀ id register, (live.atEnd id).contains register = true →
    (live.needed (graph.successors id)).contains register = true
  used : ∀ id register, (live.atStart id).contains register = true →
    register ∈ usedRegisters effects

variable {graph effects} {live next : Liveness} {id : BlockId}

theorem mem_usedRegisters (read : (effects.getD id {}).uses.contains reg = true) :
    reg ∈ usedRegisters effects := by
  simp only [usedRegisters, List.mem_toFinset, List.mem_flatMap, RegSet.mem_toList]
  rw [Array.getD_eq_getD_getElem?] at read
  cases found : effects[id]? with
  | none =>
    rw [found] at read
    simp at read
  | some effect =>
    grind

theorem contains_demand : (live.demand graph effects id).contains reg = true ↔
      (effects.getD id {}).uses.contains reg = true ∨
        (live.needed (graph.successors id)).contains reg = true ∧
          (effects.getD id {}).defs.contains reg = false := by
  simp [demand]

theorem Rising.demand_used (rising : live.Rising graph effects)
    (demanded : (live.demand graph effects id).contains reg = true) :
    reg ∈ usedRegisters effects := by
  rcases contains_demand.mp demanded with read | ⟨passed, _⟩
  · exact mem_usedRegisters read
  · obtain ⟨successor, _, mem⟩ := contains_needed.mp passed
    exact rising.used successor reg mem

theorem Within.needed (within : live.Within next)
    (mem : (live.needed successors).contains reg = true) :
    (next.needed successors).contains reg = true := by
  obtain ⟨successor, follows, found⟩ := contains_needed.mp mem
  exact contains_needed.mpr ⟨successor, follows, within.atStart _ _ found⟩

theorem Within.demand (within : live.Within next)
    (mem : (live.demand graph effects id).contains reg = true) :
    (next.demand graph effects id).contains reg = true :=
  contains_demand.mpr ((contains_demand.mp mem).imp_right fun ⟨passed, unwritten⟩ =>
    ⟨within.needed passed, unwritten⟩)

/-! ## One update -/

def updated (graph : Graph) (effects : Array BlockEffect) (live : Liveness) (id : BlockId) :
    Liveness where
  liveIn := live.liveIn.setIfInBounds id (live.demand graph effects id)
  liveOut := live.liveOut.setIfInBounds id (live.needed (graph.successors id))

theorem atStart_updated (live : Liveness) (known : id < live.liveIn.size) (other : BlockId) :
    (updated graph effects live id).atStart other =
      if other = id then live.demand graph effects id else live.atStart other := by
  simp only [atStart, updated, getD_eq_getD_getElem?]
  grind

theorem atEnd_updated (live : Liveness) (known : id < live.liveOut.size) (other : BlockId) :
    (updated graph effects live id).atEnd other =
      if other = id then live.needed (graph.successors id) else live.atEnd other := by
  simp only [atEnd, updated, getD_eq_getD_getElem?]
  grind

theorem Rising.within_updated (rising : live.Rising graph effects)
    (known : id < graph.blocks.size) : live.Within (updated graph effects live id) where
  atStart other reg mem := by
    rw [atStart_updated live (rising.start_size ▸ known)]
    split
    · next same => exact rising.start_demand id reg (same ▸ mem)
    · exact mem
  atEnd other reg mem := by
    rw [atEnd_updated live (rising.end_size ▸ known)]
    split
    · next same => exact rising.end_needed id reg (same ▸ mem)
    · exact mem

theorem Rising.updated (rising : live.Rising graph effects) (known : id < graph.blocks.size) :
    (updated graph effects live id).Rising graph effects where
  start_size := by rw [Liveness.updated, size_setIfInBounds, rising.start_size]
  end_size := by rw [Liveness.updated, size_setIfInBounds, rising.end_size]
  start_demand other reg mem := by
    refine (rising.within_updated known).demand ?_
    rw [atStart_updated live (rising.start_size ▸ known)] at mem
    split at mem
    · next same => exact same ▸ mem
    · exact rising.start_demand other reg mem
  end_needed other reg mem := by
    refine (rising.within_updated known).needed ?_
    rw [atEnd_updated live (rising.end_size ▸ known)] at mem
    split at mem
    · next same => exact same ▸ mem
    · exact rising.end_needed other reg mem
  used other reg mem := by
    rw [atStart_updated live (rising.start_size ▸ known)] at mem
    split at mem
    · exact rising.demand_used mem
    · exact rising.used other reg mem

theorem card_filter_le (used : Finset VReg)
    (within : ∀ reg, left.contains reg = true → right.contains reg = true) :
    (used.filter fun reg => left.contains reg).card ≤
      (used.filter fun reg => right.contains reg).card :=
  Finset.card_le_card (Finset.monotone_filter_right used fun reg _ => within reg)

theorem card_filter_lt {used : Finset VReg}
    (within : ∀ reg, left.contains reg = true → right.contains reg = true)
    (known : ∀ reg, right.contains reg = true → reg ∈ used) (different : right ≠ left) :
    (used.filter fun reg => left.contains reg).card <
      (used.filter fun reg => right.contains reg).card := by
  obtain ⟨reg, member, missing⟩ : ∃ reg, right.contains reg = true ∧ ¬left.contains reg = true := by
    by_contra none
    push Not at none
    refine different (RegSet.ext_contains fun reg => ?_)
    exact Bool.eq_iff_iff.mpr ⟨none reg, within reg⟩
  refine Finset.card_lt_card (Finset.ssubset_iff_subset_ne.mpr
    ⟨Finset.monotone_filter_right used fun reg _ => within reg, fun same => missing ?_⟩)
  have mem : reg ∈ used.filter fun reg => right.contains reg :=
    Finset.mem_filter.mpr ⟨known reg member, member⟩
  grind

theorem Rising.weight_lt (rising : live.Rising graph effects) (known : id < graph.blocks.size)
    (unbalanced : ¬live.Balanced graph effects id) :
    live.weight graph effects < (Liveness.updated graph effects live id).weight graph effects := by
  have within := rising.within_updated known
  refine Finset.sum_lt_sum (fun other _ => Nat.add_le_add (card_filter_le _ (within.atStart other))
      (card_filter_le _ (within.atEnd other)))
    ⟨id, Finset.mem_range.mpr known, ?_⟩
  have start_le := card_filter_le (usedRegisters effects) (within.atStart id)
  have end_le := card_filter_le (usedRegisters effects) (within.atEnd id)
  by_cases same : live.demand graph effects id = live.atStart id
  · refine add_lt_add_of_le_of_lt start_le ?_
    rw [atEnd_updated live (rising.end_size ▸ known), if_pos rfl]
    refine card_filter_lt (rising.end_needed id) (fun reg mem => ?_)
      fun equal => unbalanced ⟨same, equal⟩
    obtain ⟨successor, _, found⟩ := contains_needed.mp mem
    exact rising.used successor reg found
  · refine add_lt_add_of_lt_of_le ?_ end_le
    rw [atStart_updated live (rising.start_size ▸ known), if_pos rfl]
    exact card_filter_lt (rising.start_demand id) (fun _ => rising.demand_used) same

theorem update_cases (live : Liveness) {changed : Bool} (id : BlockId) :
    live.Balanced graph effects id ∧ update graph effects (live, changed) id = (live, changed) ∨
      ¬live.Balanced graph effects id ∧
        update graph effects (live, changed) id = (updated graph effects live id, true) := by
  by_cases balanced : live.Balanced graph effects id
  · exact .inl ⟨balanced, if_pos balanced⟩
  · exact .inr ⟨balanced, if_neg balanced⟩

/-! ## Sweeps -/

/-- What updates of some blocks come to: the sets stay below the equations, and if no update
reports a change, nothing changed and all the blocks are balanced. -/
theorem Rising.foldl_update (rising : live.Rising graph effects) (ids : List BlockId)
    (known : ∀ id ∈ ids, id < graph.blocks.size) (changed : Bool) :
    let res := ids.foldl (update graph effects) (live, changed)
    res.1.Rising graph effects ∧
      (res.2 = true → changed = true ∨ live.weight graph effects < res.1.weight graph effects) ∧
      live.weight graph effects ≤ res.1.weight graph effects ∧
      (res.2 = false → res.1 = live ∧ changed = false ∧
        ∀ id ∈ ids, live.Balanced graph effects id) := by
  induction ids generalizing live changed with
  | nil => simp_all
  | cons id rest ih =>
    have id_known := known id (.head _)
    have rest_known : ∀ id ∈ rest, id < graph.blocks.size :=
      fun id mem => known id (.tail _ mem)
    rw [foldl_cons]
    rcases update_cases live id with ⟨balanced, same⟩ | ⟨unbalanced, grown⟩
    · rw [same]
      obtain ⟨later, more, weight_le, unchanged⟩ := ih rising rest_known changed
      refine ⟨later, more, weight_le, fun quiet => ?_⟩
      obtain ⟨result_eq, before, rest_balanced⟩ := unchanged quiet
      exact ⟨result_eq, before, forall_mem_cons.mpr ⟨balanced, rest_balanced⟩⟩
    · have weight_lt := rising.weight_lt id_known unbalanced
      obtain ⟨later, _, weight_le, unchanged⟩ := ih (rising.updated id_known) rest_known true
      grind

theorem weight_le_useCount (graph : Graph) (live : Liveness) :
    live.weight graph graph.effects ≤ 2 * graph.blocks.size * graph.useCount := by
  have total (effects : List BlockEffect) (start : Nat) :
      effects.foldl (fun total effect => total + effect.uses.toList.length) start =
        start + (effects.flatMap (·.uses.toList)).length := by
    induction effects generalizing start with
    | nil => rfl
    | cons effect rest ih =>
      grind
  have used_le : (usedRegisters graph.effects).card ≤ graph.useCount := by
    rw [Graph.useCount, total, zero_add]
    exact toFinset_card_le _
  calc
    live.weight graph graph.effects
      ≤ ∑ _id ∈ Finset.range graph.blocks.size, 2 * graph.useCount := by
        refine Finset.sum_le_sum fun id _ => ?_
        grind
    _ = 2 * graph.blocks.size * graph.useCount := by
        simp [Nat.mul_left_comm, Nat.mul_assoc]

/-- Sweeps until one changes nothing, with no bound on their number. -/
inductive Settles (graph : Graph) : (live result : Liveness) → Prop where
  | quiet {live result : Liveness}
      (last : sweep graph graph.effects live = (result, false)) : Settles graph live result
  | again {live next result : Liveness} (swept : sweep graph graph.effects live = (next, true))
      (later : Settles graph next result) : Settles graph live result

/-- Sweeps end with balanced blocks: each one that changes something makes the sets grow. -/
theorem Rising.iterate (rising : live.Rising graph graph.effects) (fuel : Nat)
    (enough : 2 * graph.blocks.size * graph.useCount < live.weight graph graph.effects + fuel) :
    Settles graph live (Liveness.iterate graph graph.effects fuel live) ∧ ∀ id < graph.blocks.size,
        (Liveness.iterate graph graph.effects fuel live).Balanced graph graph.effects id := by
  induction fuel generalizing live with
  | zero =>
    have bound := weight_le_useCount graph live
    omega
  | succ fuel ih =>
    obtain ⟨later, more, _, unchanged⟩ := rising.foldl_update
      (List.range graph.blocks.size).reverse (by simp) false
    rw [← sweep] at later more unchanged
    rw [Liveness.iterate]
    grind [Settles]

def nothing (graph : Graph) : Liveness where
  liveIn := Array.replicate graph.blocks.size .empty
  liveOut := Array.replicate graph.blocks.size .empty

theorem getD_replicate_empty (count : Nat) (id : BlockId) :
    (Array.replicate count RegSet.empty).getD id .empty = .empty := by
  rw [getD_eq_getD_getElem?, Array.getElem?_replicate]
  split <;> rfl

theorem atStart_nothing : (nothing graph).atStart id = .empty := getD_replicate_empty _ id

theorem atEnd_nothing : (nothing graph).atEnd id = .empty := getD_replicate_empty _ id

theorem rising_nothing : (nothing graph).Rising graph graph.effects where
  start_size := size_replicate
  end_size := size_replicate
  start_demand := by simp [atStart_nothing]
  end_needed := by simp [atEnd_nothing]
  used := by simp [atStart_nothing]

end Liveness

theorem Graph.liveness_settles (graph : Graph) :
    Liveness.Settles graph (.nothing graph) graph.liveness ∧
      ∀ id < graph.blocks.size, graph.liveness.Balanced graph graph.effects id :=
  Liveness.rising_nothing.iterate _ (by omega)

end Backend65816
