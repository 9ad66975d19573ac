import Backend65816.Lowering.Draft
import Backend65816.Proofs.GraphRun

/-!
# Reachable blocks

The search for reachable blocks marks the entry and every successor of what it marks: each step
takes one block off the pending ones, and a block makes its successors pending only once, so the
steps last. A finished graph therefore keeps every block that a run can visit, and runs of it are
those of the draft with the blocks renumbered.
-/

namespace Backend65816

open Array Option List Graph Terminator

variable {mem : Address → Int} {other : BlockId} {graph : Graph} {point last : GraphPoint}
  {order : List BlockId} {steps : Nat} {args : Nat → Int} {regs : VReg → Int}

namespace Graph

variable {seen : Array Bool} {due : List BlockId}

/-! ## The search -/

/-- Number of edges out of blocks that are not marked, for blocks numbered from a first one. -/
def unmarkedEdges (seen : Array Bool) : (first : Nat) → List BasicBlock → Nat
  | _, [] => 0
  | first, block :: rest =>
    (if seen.getD first false then 0 else block.successors.length) +
      unmarkedEdges seen (first + 1) rest

def Marked (seen : Array Bool) (id : BlockId) : Prop := seen.getD id false = true

theorem getD_setIfInBounds_of_ne {id : BlockId} (different : other ≠ id) :
    (seen.setIfInBounds id true).getD other false = seen.getD other false := by
  simp only [getD_eq_getD_getElem?, Array.getElem?_setIfInBounds]
  rw [if_neg different.symm]

theorem marked_setIfInBounds_self {id : BlockId} (inside : id < seen.size) :
    Marked (seen.setIfInBounds id true) id := by
  simp [Marked, inside]

theorem Marked.setIfInBounds (marked : Marked seen other) (id : BlockId) :
    Marked (seen.setIfInBounds id true) other := by
  by_cases same : other = id
  · subst same
    refine marked_setIfInBounds_self ?_
    grind [Marked]
  · rwa [Marked, getD_setIfInBounds_of_ne same]

theorem unmarkedEdges_setIfInBounds {id : Nat} (inside : id < seen.size)
    (unmarked : seen.getD id false = false) (first : Nat) (blocks : List BasicBlock) :
    unmarkedEdges seen first blocks = unmarkedEdges (seen.setIfInBounds id true) first blocks +
        if first ≤ id then (blocks[id - first]?.map fun block => block.successors.length).getD 0
        else 0 := by
  induction blocks generalizing first with
  | nil => simp [unmarkedEdges]
  | cons block rest ih =>
    rw [unmarkedEdges, unmarkedEdges]
    by_cases same : first = id
    · subst same
      have marked : (seen.setIfInBounds first true).getD first false = true :=
        marked_setIfInBounds_self inside
      grind
    · rw [getD_setIfInBounds_of_ne same]
      grind

theorem unmarkedEdges_replicate (size first : Nat) (blocks : List BasicBlock) :
    unmarkedEdges (Array.replicate size false) first blocks =
      (blocks.map fun block => block.successors.length).sum := by
  induction blocks generalizing first with
  | nil => rfl
  | cons block rest ih =>
    have unmarked : (Array.replicate size false).getD first false = false := by
      simp [Array.getElem?_replicate]
      split <;> rfl
    rw [unmarkedEdges, unmarked, ih]
    rfl

theorem edgeCount_eq (graph : Graph) :
    graph.edgeCount = (graph.blocks.toList.map fun block => block.successors.length).sum := by
  have general : ∀ (blocks : List BasicBlock) (total : Nat),
      blocks.foldl (fun total block => total + block.successors.length) total =
        total + (blocks.map fun block => block.successors.length).sum := by
    intro blocks
    induction blocks with
    | nil => simp
    | cons block rest ih =>
      grind
  rw [edgeCount, general, Nat.zero_add]

/-- Successors of marked blocks are marked or pending. -/
def Searches (graph : Graph) (pending : List BlockId) (seen : Array Bool) : Prop :=
  ∀ id, Marked seen id → ∀ next ∈ graph.successors id, next < graph.blocks.size →
    Marked seen next ∨ next ∈ pending

section

variable {id : BlockId}

theorem getD_true_iff (inside : id < seen.size) : seen.getD id true = true ↔ Marked seen id := by
  simp [Marked, inside]

theorem Searches.skip (searches : graph.Searches (id :: due) seen)
    (marked : id < graph.blocks.size → Marked seen id) : graph.Searches due seen := by
  intro other known next successor inside
  rcases searches other known next successor inside with found | waiting
  all_goals grind

theorem Searches.visit (searches : graph.Searches (id :: due) seen) (inside : id < seen.size) :
    graph.Searches ((graph.successors id).reverse ++ due) (seen.setIfInBounds id true) := by
  intro other known next successor next_inside
  by_cases same : other = id
  · simp_all
  · rw [Marked, getD_setIfInBounds_of_ne same] at known
    rcases searches other known next successor next_inside with found | waiting
    · exact .inl (found.setIfInBounds id)
    · grind [marked_setIfInBounds_self]

end

variable (graph)

/-- With fuel for what is pending and for all edges to come, the search ends with a closed set that
contains what was pending and what was marked. -/
theorem mark_closed {fuel : Nat} (size_eq : seen.size = graph.blocks.size)
    (enough : due.length + unmarkedEdges seen 0 graph.blocks.toList < fuel)
    (searches : graph.Searches due seen) : graph.Searches [] (graph.mark fuel due seen) ∧
      (∀ id ∈ due, id < graph.blocks.size → Marked (graph.mark fuel due seen) id) ∧
      ∀ id, Marked seen id → Marked (graph.mark fuel due seen) id := by
  induction fuel generalizing due seen with
  | zero => omega
  | succ fuel ih =>
    cases due with
    | nil => exact ⟨searches, by simp, fun _ marked => marked⟩
    | cons id due =>
      rw [length_cons] at enough
      rw [mark]
      split
      · rename_i present
        have marked : id < graph.blocks.size → Marked seen id := fun inside =>
          (getD_true_iff (size_eq ▸ inside)).mp present
        obtain ⟨closed, reached, kept⟩ := ih size_eq (by omega) (searches.skip marked)
        simp_all
      · rename_i absent
        have inside : id < seen.size := by
          grind
        rw [getD_true_iff inside, Marked, Bool.not_eq_true] at absent
        have edges := unmarkedEdges_setIfInBounds inside absent 0 graph.blocks.toList
        have found : graph.blocks[id]? = some graph.blocks[id] := Array.getElem?_eq_getElem _
        rw [if_pos (Nat.zero_le id), Nat.sub_zero, Array.getElem?_toList, found, map_some,
          getD_some] at edges
        obtain ⟨closed, reached, kept⟩ :=
          ih (by rw [size_setIfInBounds, size_eq]) (by simp [successors, found]; omega)
            (searches.visit inside)
        refine ⟨closed, fun other mem other_inside => ?_,
          fun other known => kept other (known.setIfInBounds id)⟩
        grind [marked_setIfInBounds_self]

theorem reachable_closed : (graph.entry < graph.blocks.size → Marked graph.reachable graph.entry) ∧
      ∀ id, Marked graph.reachable id → ∀ next ∈ graph.successors id,
        next < graph.blocks.size → Marked graph.reachable next := by
  have none_marked : ∀ id, ¬Marked (Array.replicate graph.blocks.size false) id := by
    intro id
    simp only [Marked, getD_eq_getD_getElem?, Array.getElem?_replicate]
    split <;> simp
  have enough : [graph.entry].length +
      unmarkedEdges (Array.replicate graph.blocks.size false) 0 graph.blocks.toList <
        graph.edgeCount + 2 := by
    rw [unmarkedEdges_replicate, ← edgeCount_eq, length_singleton]
    omega
  obtain ⟨closed, reached, _⟩ := graph.mark_closed size_replicate enough
    fun id marked => absurd marked (none_marked id)
  refine ⟨reached _ (.head _), fun id marked next successor inside => ?_⟩
  rcases closed id marked next successor inside with found | waiting
  · exact found
  · cases waiting

end Graph

/-! ## Finished graphs -/

def GraphPoint.rename (rename : BlockId → BlockId) (point : GraphPoint) : GraphPoint :=
  { point with block := rename point.block }

theorem Terminator.follow_retarget (rename : BlockId → BlockId) (state : GraphState)
    (term : Terminator) :
    (term.retarget rename).follow state = (term.follow state).map (Sum.map rename id) := by
  cases term with
  | jump target => rfl
  | branch cond left right yes no =>
    grind [retarget, follow]
  | jumpTable idx targets =>
    simp only [retarget, follow, List.getElem?_map, Option.map_map]
    rfl
  | giveBack vals => rfl

theorem Terminator.mem_successors_of_follow {state : GraphState} {target : BlockId}
    (term : Terminator) (follows : term.follow state = some (.inl target)) :
    target ∈ term.successors := by
  cases term with
  | jump other =>
    cases follows
    exact (.head _)
  | branch cond left right yes no =>
    simp only [follow] at follows
    split at follows <;> cases follows
    · exact (.head _)
    · exact .tail _ (.head _)
  | jumpTable idx targets =>
    simp only [follow, map_eq_some_iff] at follows
    obtain ⟨other, found, same⟩ := follows
    cases same
    exact mem_of_getElem? found
  | giveBack vals => cases follows

def placeIn (order : List BlockId) (id : BlockId) : BlockId := (order.findIdx? (· = id)).getD 0

namespace Draft

theorem renumber_blocks {id : BlockId} {block : BasicBlock}
    (listed : id ∈ order) (found : graph.blocks[id]? = some block) :
    (renumber graph order).blocks[placeIn order id]? = some
      { block with terminator := block.terminator.map (retarget (placeIn order)) } := by
  obtain ⟨idx, index_eq⟩ : ∃ idx, order.findIdx? (· = id) = some idx := by
    rw [← Option.isSome_iff_exists, List.findIdx?_isSome, List.any_eq_true]
    exact ⟨id, listed, decide_eq_true rfl⟩
  have place_eq : placeIn order id = idx := by rw [placeIn, index_eq, getD_some]
  obtain ⟨inside, same, _⟩ := List.findIdx?_eq_some_iff_getElem.mp index_eq
  have order_eq : order[idx]? = some id := by
    simp_all
  rw [place_eq, renumber]
  simp only [List.getElem?_toArray, List.getElem?_map, order_eq, map_some,
    getD_eq_getD_getElem?, found, getD_some]
  rfl

theorem step_renumber (listed : point.block ∈ order)
    {res : GraphPoint ⊕ (List Int × (Address → Int))} (stepped : graph.step args point = some res) :
    (renumber graph order).step args (point.rename (placeIn order)) =
      some (res.map (GraphPoint.rename (placeIn order)) id) := by
  obtain ⟨block, found, cases⟩ := step_cases stepped
  have placed := renumber_blocks listed found
  rcases cases with ⟨action, after, next, acts, rfl⟩ | ⟨term, done, ends, cases⟩
  · exact step_action placed next acts
  · have ends' : block.terminator.map (retarget (placeIn order)) =
        some (term.retarget (placeIn order)) := by rw [ends, map_some]
    rcases cases with ⟨target, follows, rfl⟩ | ⟨vals, follows, rfl⟩
    · refine step_terminator placed done ends' ?_
      rw [follow_retarget, follows, map_some, Sum.map_inl]
    · refine step_return placed done ends' ?_
      rw [follow_retarget, follows, map_some, Sum.map_inr, id]

theorem step_block {next : GraphPoint} (stepped : graph.step args point = some (.inl next)) :
    point.block < graph.blocks.size ∧
      (next.block = point.block ∨ next.block ∈ graph.successors point.block) := by
  obtain ⟨block, found, cases⟩ := step_cases stepped
  obtain ⟨inside, _⟩ := Array.getElem?_eq_some_iff.mp found
  refine ⟨inside, ?_⟩
  rcases cases with ⟨action, after, _, _, same⟩ | ⟨term, _, ends, cases⟩
  · cases same
    exact .inl rfl
  · rcases cases with ⟨target, follows, same⟩ | ⟨vals, _, same⟩
    · cases same
      refine .inr ?_
      rw [Graph.successors, found]
      simp only [BasicBlock.successors, ends]
      exact term.mem_successors_of_follow follows
    · cases same

def finalOrder (draft : Draft) (name : String) (mode : Mode) : List BlockId :=
  let reached := (draft.graph name mode).reachable
  let others := (List.range draft.blocks.size).filter fun id => id ∉ draft.entered
  (draft.entered ++ others).filter fun id => reached.getD id false

theorem mem_finalOrder {draft : Draft} {name : String} {mode : Mode} {id : BlockId}
    (inside : id < draft.blocks.size)
    (reached : Graph.Marked (draft.graph name mode).reachable id) :
    id ∈ draft.finalOrder name mode := by
  refine mem_filter.mpr ⟨?_, reached⟩
  grind

section Runs

variable {draft : Draft} {name : String} {mode : Mode}

/-- Runs from a reachable block stay in reachable blocks and are runs of the finished graph. -/
theorem reachesIn_finish (runs : (draft.graph name mode).ReachesIn args steps point last)
    (reached : point.block < draft.blocks.size →
      Graph.Marked (draft.graph name mode).reachable point.block) :
    (draft.finish name mode).ReachesIn args steps
        (point.rename (placeIn (draft.finalOrder name mode)))
        (last.rename (placeIn (draft.finalOrder name mode))) ∧
      (last.block < draft.blocks.size →
        Graph.Marked (draft.graph name mode).reachable last.block) := by
  induction runs with
  | refl point => exact ⟨.refl _, reached⟩
  | @head steps before mid after first later ih =>
    obtain ⟨inside, ways⟩ := step_block first
    have before_reached := reached inside
    have middle_reached : mid.block < draft.blocks.size →
        Graph.Marked (draft.graph name mode).reachable mid.block := by
      intro middle_inside
      rcases ways with same | successor
      · rwa [same]
      · exact (draft.graph name mode).reachable_closed.2 _ before_reached _ successor middle_inside
    obtain ⟨runs, after_reached⟩ := ih middle_reached
    exact ⟨.head (step_renumber (mem_finalOrder inside before_reached) first) runs, after_reached⟩

theorem start_reached : ((draft.graph name mode).start regs mem).block < draft.blocks.size →
      Graph.Marked (draft.graph name mode).reachable
        ((draft.graph name mode).start regs mem).block :=
  (draft.graph name mode).reachable_closed.1

end Runs

end Draft

end Backend65816
