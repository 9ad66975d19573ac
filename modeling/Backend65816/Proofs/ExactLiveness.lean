import Backend65816.Proofs.PathLiveness

/-!
# Exact liveness

The sets of `Graph.liveness` hold no more than paths ask for. They start empty, and an update adds
a register to a block only where a path reads it: inside the block, or from the start of a
successor, where the register was added before.
-/

namespace Backend65816

variable {graph : Graph} {live next : Liveness} {id : BlockId} {reg : VReg}

theorem Graph.LiveAt.of_needed {after : RegSet} {idx : Nat}
    (behind : after.contains reg = true → graph.LiveAt reg id (graph.blockSlots id).length)
    (inside : idx ≤ (graph.blockSlots id).length)
    (needed : NeededBefore after reg ((graph.blockSlots id).drop idx)) :
    graph.LiveAt reg id idx := by
  -- The slots that remain are the measure: at none the register has to be needed behind the block.
  generalize rest_eq : (graph.blockSlots id).drop idx = rest at needed
  induction rest generalizing idx with
  | nil =>
    rw [Nat.le_antisymm inside (List.drop_eq_nil_iff.mp rest_eq)]
    exact behind needed
  | cons slot rest ih =>
    have found : (graph.blockSlots id)[idx]? = some slot := by
      rw [← List.head?_drop, rest_eq, List.head?_cons]
    rcases needed with used | ⟨unwritten, later⟩
    · exact .read found used
    · refine .pass found unwritten (ih (List.getElem?_eq_some_iff.mp found).1 ?_ later)
      rw [← List.tail_drop, rest_eq, List.tail_cons]

namespace Liveness

/-- Every register of the sets is read on a path that does not write it before. -/
structure Traced (graph : Graph) (live : Liveness) : Prop where
  atStart : ∀ id reg, (live.atStart id).contains reg = true → graph.LiveAt reg id 0
  atEnd : ∀ id reg, (live.atEnd id).contains reg = true →
    graph.LiveAt reg id (graph.blockSlots id).length

theorem traced_nothing : (nothing graph).Traced graph where
  atStart := by simp [atStart_nothing]
  atEnd := by simp [atEnd_nothing]

namespace Traced

variable (traced : live.Traced graph)
include traced

theorem needed (mem : (live.needed (graph.successors id)).contains reg = true) :
    graph.LiveAt reg id (graph.blockSlots id).length := by
  obtain ⟨successor, edge, found⟩ := contains_needed.mp mem
  exact .follow edge (traced.atStart successor reg found)

theorem demand (mem : (live.demand graph graph.effects id).contains reg = true) :
    graph.LiveAt reg id 0 :=
  .of_needed traced.needed (Nat.zero_le _) (Graph.contains_demand_iff.mp mem)

theorem updated (id : BlockId) : (updated graph graph.effects live id).Traced graph where
  atStart other reg mem := by
    have cases : (other = id ∧ (live.demand graph graph.effects id).contains reg = true) ∨
        (live.atStart other).contains reg = true := by
      simp only [Liveness.atStart, Liveness.updated, Array.getD_eq_getD_getElem?] at mem ⊢
      grind
    rcases cases with ⟨rfl, new⟩ | old
    · exact traced.demand new
    · exact traced.atStart other reg old
  atEnd other reg mem := by
    have cases : (other = id ∧ (live.needed (graph.successors id)).contains reg = true) ∨
        (live.atEnd other).contains reg = true := by
      simp only [Liveness.atEnd, Liveness.updated, Array.getD_eq_getD_getElem?] at mem ⊢
      grind
    rcases cases with ⟨rfl, new⟩ | old
    · exact traced.needed new
    · exact traced.atEnd other reg old

theorem sweep : (sweep graph graph.effects live).1.Traced graph := by
  refine List.foldlRecOn (motive := (·.1.Traced graph)) (b := (live, false)) _ _ traced
    fun ⟨live, changed⟩ before id _ => ?_
  rcases update_cases live id with ⟨_, same⟩ | ⟨_, grown⟩
  · rw [same]
    exact before
  · rw [grown]
    exact before.updated id

end Traced

theorem Settles.traced (settles : Settles graph live next) (traced : live.Traced graph) :
    next.Traced graph := by
  induction settles with
  | quiet last =>
    have swept := traced.sweep
    rwa [last] at swept
  | again first _ ih =>
    have swept := traced.sweep
    rw [first] at swept
    exact ih swept

end Liveness

/-- Sweeps come to an end, and a register is then live at a boundary of a block exactly if a path
from there reads it before it is written. -/
theorem Graph.liveness_exact (graph : Graph) :
    Liveness.Settles graph (.nothing graph) graph.liveness ∧ ∀ id reg,
        ((graph.liveness.atStart id).contains reg = true ↔ graph.LiveAt reg id 0) ∧
        ((graph.liveness.atEnd id).contains reg = true ↔
          graph.LiveAt reg id (graph.blockSlots id).length) := by
  have settles := graph.liveness_settles.1
  have traced := settles.traced Liveness.traced_nothing
  refine ⟨settles, fun id reg => ⟨⟨traced.atStart id reg, LiveAt.mem_atStart⟩,
    traced.atEnd id reg, fun alive => ?_⟩⟩
  have needed := alive.needed
  rw [List.drop_length] at needed
  exact needed

end Backend65816
