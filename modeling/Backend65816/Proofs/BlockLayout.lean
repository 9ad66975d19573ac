import Mathlib.Data.List.Perm.Subperm
import Backend65816.Flow.Layout
import Backend65816.Proofs.Reachability

/-!
# Laying out blocks keeps what a function does

A run is watched from outside: the actions it has carried out so far, and the registers it returns.
Nothing is assumed of what an action does or of how a test comes out. Jumps that skip chains of
empty blocks, branches with two equal ways and new block numbers leave all of this as it was. A
chain that closes into a ring of empty blocks is watched in silence before and after.
-/

namespace Backend65816

open List Terminator

variable {target src : BlockId} {due : List Action} {ring : List BlockId} {fuel : Nat}
  {exit : Terminator}

/-- What actions do and how tests come out, over states of any kind. -/
structure Interpretation (State : Type) where
  act : State → Action → Option State
  test : State → Cond → VReg → Value → Bool
  index : State → VReg → Nat

/-- How far a run is: on its way, or returned with the values of some registers. -/
inductive Progress (State : Type) where
  | going (state : State)
  | returned (values : List VReg) (state : State)

variable {State : Type} {meaning : Interpretation State}

def Interpretation.follow (meaning : Interpretation State) (state : State) :
    Terminator → Option (BlockId ⊕ List VReg)
  | .jump target => some (.inl target)
  | .branch condition left right yes no =>
    some (.inl (if meaning.test state condition left right then yes else no))
  | .jumpTable index targets => targets[meaning.index state index]?.map .inl
  | .giveBack values => some (.inr values)

theorem Interpretation.follow_retarget (rename : BlockId → BlockId) (state : State)
    (exit : Terminator) :
    meaning.follow state (exit.retarget rename) =
      (meaning.follow state exit).map (Sum.map rename id) := by
  cases exit with
  | branch cond left right yes no =>
    grind [retarget, Interpretation.follow]
  | jumpTable idx targets =>
    simp only [retarget, Interpretation.follow, getElem?_map, Option.map_map]
    rfl
  | jump target => rfl
  | giveBack vals => rfl

theorem Interpretation.follow_simplify (state : State) (exit : Terminator) :
    meaning.follow state (Graph.simplifyTerminator exit) = meaning.follow state exit := by
  cases exit with
  | branch cond left right yes no =>
    rw [Graph.simplifyTerminator]
    split
    all_goals simp_all [Interpretation.follow]
  | jump | jumpTable | giveBack => rfl

theorem Interpretation.mem_successors_of_follow {state : State}
    (follows : meaning.follow state exit = some (.inl target)) : target ∈ exit.successors := by
  cases exit with
  | jump other =>
    cases follows
    exact (.head _)
  | branch cond left right yes no =>
    simp only [Interpretation.follow] at follows
    split at follows <;> cases follows
    · exact (.head _)
    · exact .tail _ (.head _)
  | jumpTable idx targets =>
    obtain ⟨other, found, same⟩ := Option.map_eq_some_iff.mp follows
    cases same
    exact mem_of_getElem? found
  | giveBack vals => cases follows

theorem Terminator.successors_retarget {rename : BlockId → BlockId} (exit : Terminator) :
    (exit.retarget rename).successors = exit.successors.map rename := by
  cases exit <;> rfl

theorem Terminator.mem_successors_of_simplify
    (mem : target ∈ (Graph.simplifyTerminator exit).successors) : target ∈ exit.successors := by
  cases exit with
  | branch cond left right yes no =>
    rw [Graph.simplifyTerminator] at mem
    split at mem
    · rw [mem_singleton.mp mem]
      exact .head _
    · exact mem
  | jump | jumpTable | giveBack => exact mem

namespace Graph

variable {graph : Graph}

variable {next first last : BlockId} {state : State} {trace : List Action}
  {progress : Progress State}

/-- A block by its number; a number of no block stands for a block in which runs stop. -/
def blockAt (graph : Graph) (id : BlockId) : BasicBlock := graph.blocks.getD id {}

def leave (meaning : Interpretation State) (graph : Graph) (id : BlockId) (state : State) :
    Option (BlockId ⊕ List VReg) :=
  (graph.blockAt id).terminator.bind (meaning.follow state)

/-- From a block of which some actions are still to be done, a run carries out the actions of a
trace, one after the other, and is then at some progress. -/
inductive Executes (meaning : Interpretation State) (graph : Graph) :
    BlockId → List Action → State → List Action → Progress State → Prop
  | rest (id : BlockId) (pending : List Action) (state : State) :
      Executes meaning graph id pending state [] (.going state)
  | act {id : BlockId} {action : Action} {pending trace : List Action} {state after : State}
      {progress : Progress State} (acts : meaning.act state action = some after)
      (later : Executes meaning graph id pending after trace progress) :
      Executes meaning graph id (action :: pending) state (action :: trace) progress
  | follow {id target : BlockId} {trace : List Action} {state : State}
      {progress : Progress State} (leaves : graph.leave meaning id state = some (.inl target))
      (later : Executes meaning graph target (graph.blockAt target).actions state trace
        progress) :
      Executes meaning graph id [] state trace progress
  | giveBack {id : BlockId} {values : List VReg} {state : State}
      (leaves : graph.leave meaning id state = some (.inr values)) :
      Executes meaning graph id [] state [] (.returned values state)

/-- What can be watched of runs that start in a block. -/
def Behaves (meaning : Interpretation State) (graph : Graph) (id : BlockId) (state : State)
    (trace : List Action) (progress : Progress State) : Prop :=
  graph.Executes meaning id (graph.blockAt id).actions state trace progress

def Reaches (graph : Graph) : BlockId → Prop :=
  Relation.ReflTransGen (fun before after => after ∈ graph.successors before) graph.entry

/-- The entry is a block, and so are the targets of all that it reaches. -/
def Closed (graph : Graph) : Prop := ∀ id, graph.Reaches id → id < graph.blocks.size

theorem successors_eq (graph : Graph) (id : BlockId) :
    graph.successors id = (graph.blockAt id).successors := by
  rw [successors, blockAt, Array.getD_eq_getD_getElem?]
  cases graph.blocks[id]? <;> rfl

/-! ## Chains of empty blocks -/

theorem forward?_eq_some {id : BlockId} (forward : graph.forward? id = some next) :
    id < graph.blocks.size ∧ (graph.blockAt id).actions = [] ∧
      (graph.blockAt id).terminator = some (.jump next) := by
  unfold forward? at forward
  split at forward
  · split at forward
    · cases forward
    · rw [blockAt, Array.getD_eq_getD_getElem?]
      grind
  · cases forward

/-- A chain of empty blocks leads from one block to another. -/
def Chain (graph : Graph) : BlockId → BlockId → Prop :=
  Relation.ReflTransGen fun before after => graph.forward? before = some after

def Idle (graph : Graph) (ring : List BlockId) : Prop :=
  ∀ id ∈ ring, ∃ next ∈ ring, graph.forward? id = some next

theorem Chain.eq_of_none (chain : graph.Chain first last) (none_eq : graph.forward? first = none) :
    first = last := by
  rcases chain.cases_head with same | ⟨next, forward, _⟩
  all_goals simp_all

theorem Idle.mem_of_chain (idle : graph.Idle ring) (mem : first ∈ ring)
    (chain : graph.Chain first last) : last ∈ ring := by
  induction chain with
  | refl => exact mem
  | tail _ forward ih =>
    obtain ⟨next, next_mem, forward'⟩ := idle _ ih
    simp_all

/-- The walk along a chain has visited different blocks, each of which leads to another visited one
or to where the walk stands; it ends where the chain does, unless the chain closes into a ring. -/
theorem chainEnd_spec (graph : Graph) {start : BlockId} {visited : List BlockId}
    {id : BlockId} (fuel_eq : visited.length + fuel = graph.blocks.size + 1)
    (nodup : visited.Nodup) (starts : start ∈ id :: visited)
    (links : ∀ other ∈ visited, ∃ next ∈ id :: visited, graph.forward? other = some next) :
    graph.Chain id (graph.chainEnd fuel visited id) ∧
      (graph.forward? (graph.chainEnd fuel visited id) = none ∨
        ∃ ring, start ∈ ring ∧ graph.Idle ring) := by
  induction fuel generalizing visited id with
  | zero =>
    have inside : visited ⊆ range graph.blocks.size := by
      intro other mem
      obtain ⟨next, _, forward⟩ := links other mem
      simp_all [forward?_eq_some]
    have few := (nodup.subperm inside).length_le
    rw [length_range] at few
    omega
  | succ fuel ih =>
    rw [chainEnd]
    split
    · have kept : ∀ other ∈ id :: visited, other ∈ visited := by
        grind
      refine ⟨.refl, .inr ⟨visited, kept _ starts, fun other other_mem => ?_⟩⟩
      grind
    · rename_i fresh
      have new : id ∉ visited := fun mem => fresh (contains_iff_mem.mpr mem)
      split
      · rename_i target forward
        have links' : ∀ other ∈ id :: visited,
            ∃ next ∈ target :: id :: visited, graph.forward? other = some next := by
          grind
        obtain ⟨chain, ends⟩ := ih (by rw [length_cons]; omega)
          (nodup_cons.mpr ⟨new, nodup⟩) (.tail _ starts) links'
        exact ⟨chain.head forward, ends⟩
      · rename_i forward
        exact ⟨.refl, .inl forward⟩

theorem tunnelTarget_spec (graph : Graph) (id : BlockId) : graph.Chain id (graph.tunnelTarget id) ∧
      (graph.forward? (graph.tunnelTarget id) = none ∨ ∃ ring, id ∈ ring ∧ graph.Idle ring) :=
  graph.chainEnd_spec (by simp) nodup_nil (.head _) (by simp)

theorem tunnelTarget_of_forward {id : BlockId} (forward : graph.forward? id = some next) :
    graph.tunnelTarget next = graph.tunnelTarget id ∨ ∃ ring, id ∈ ring ∧ graph.Idle ring := by
  obtain ⟨chain, ends⟩ := graph.tunnelTarget_spec id
  obtain ⟨chain', ends'⟩ := graph.tunnelTarget_spec next
  rcases ends with none_eq | ring
  · rcases ends' with none_eq' | ⟨ring, mem, idle⟩
    · have unique : Relator.RightUnique fun before after =>
          graph.forward? before = some after := by
        intro before after other first second
        simp_all
      rcases Relation.ReflTransGen.total_of_right_unique unique chain (chain'.head forward) with
        onward | onward
      all_goals grind
    · refine .inr ⟨id :: ring, .head _, fun other other_mem => ?_⟩
      rcases mem_cons.mp other_mem with rfl | other_mem
      · simp_all
      · obtain ⟨after, after_mem, forward⟩ := idle other other_mem
        simp_all
  · exact .inr ring

/-! ## Shorter ways -/

/-- The graph whose jumps go to the ends of chains and whose branches have two ways. -/
def shortened (graph : Graph) : Graph := graph.tunnel.simplify

theorem blockAt_shortened (graph : Graph) (id : BlockId) : graph.shortened.blockAt id =
      { graph.blockAt id with
        terminator := (graph.blockAt id).terminator.map fun exit =>
          simplifyTerminator (exit.retarget graph.tunnelTarget) } := by
  simp only [shortened, blockAt, simplify, tunnel, retarget, Array.getD_eq_getD_getElem?,
    Array.getElem?_map, Option.map_map]
  grind [Function.comp_def, Option.map_map]

theorem leave_shortened (src : BlockId) (state : State) : graph.shortened.leave meaning src state =
      (graph.leave meaning src state).map (Sum.map graph.tunnelTarget id) := by
  grind [leave, blockAt_shortened, Interpretation.follow_simplify, Interpretation.follow_retarget]

section

variable {id : BlockId}

/-- Nothing is watched in a ring of empty blocks, before or after its jumps are shortened. -/
theorem Idle.silent (idle : graph.Idle ring) (mem : id ∈ ring)
    (behaves : graph.shortened.Behaves meaning id state trace progress) :
    trace = [] ∧ progress = .going state := by
  have empty : ∀ other ∈ ring, (graph.shortened.blockAt other).actions = [] := by
    intro other other_mem
    obtain ⟨next, _, forward⟩ := idle other other_mem
    rw [blockAt_shortened]
    exact (forward?_eq_some forward).2.1
  have pending_eq := empty id mem
  rw [Behaves] at behaves
  generalize (graph.shortened.blockAt id).actions = due at behaves pending_eq
  induction behaves with
  | rest => exact ⟨rfl, rfl⟩
  | act => cases pending_eq
  | @follow id target trace state progress leaves later ih =>
    obtain ⟨next, next_mem, forward⟩ := idle id mem
    rw [leave_shortened, leave, (forward?_eq_some forward).2.2] at leaves
    cases leaves
    have target_mem := idle.mem_of_chain next_mem (graph.tunnelTarget_spec next).1
    exact ih target_mem (empty _ target_mem)
  | @giveBack id vals state leaves =>
    obtain ⟨next, next_mem, forward⟩ := idle id mem
    rw [leave_shortened, leave, (forward?_eq_some forward).2.2] at leaves
    cases leaves

theorem behaves_tunnelTarget (behaves : graph.shortened.Behaves meaning id state trace progress) :
    graph.shortened.Behaves meaning (graph.tunnelTarget id) state trace progress := by
  cases forward : graph.forward? id with
  | none => rwa [← Chain.eq_of_none (graph.tunnelTarget_spec id).1 forward]
  | some next =>
    obtain ⟨_, empty, ends⟩ := forward?_eq_some forward
    rcases tunnelTarget_of_forward forward with same | ⟨ring, mem, idle⟩
    · rw [Behaves, blockAt_shortened, empty] at behaves
      cases behaves with
      | rest => exact .rest _ _ _
      | follow leaves later =>
        rw [leave_shortened, leave, ends] at leaves
        cases leaves
        rwa [same] at later
      | giveBack leaves =>
        rw [leave_shortened, leave, ends] at leaves
        cases leaves
    · obtain ⟨rfl, rfl⟩ := idle.silent mem behaves
      exact .rest _ _ _

theorem Chain.behaves (chain : graph.Chain first last)
    (behaves : graph.Behaves meaning last state trace progress) :
    graph.Behaves meaning first state trace progress := by
  induction chain using Relation.ReflTransGen.head_induction_on with
  | refl => exact behaves
  | head forward _ ih =>
    obtain ⟨_, empty, ends⟩ := forward?_eq_some forward
    rw [Behaves, empty]
    exact .follow (by rw [leave, ends]; rfl) ih

theorem executes_shortened_iff : graph.shortened.Executes meaning id due state trace progress ↔
      graph.Executes meaning id due state trace progress := by
  constructor
  · intro executes
    induction executes with
    | rest => exact .rest _ _ _
    | act acts _ ih => exact .act acts ih
    | follow leaves _ ih =>
      rw [leave_shortened, Option.map_eq_some_iff] at leaves
      obtain ⟨target | values, leaves, same⟩ := leaves
      · cases same
        rw [blockAt_shortened] at ih
        exact .follow leaves ((graph.tunnelTarget_spec target).1.behaves ih)
      · cases same
    | giveBack leaves => exact .giveBack (by simpa [leave_shortened, Sum.exists] using leaves)
  · intro executes
    induction executes with
    | rest => exact .rest _ _ _
    | act acts _ ih => exact .act acts ih
    | @follow id target _ _ _ leaves _ ih =>
      refine .follow (by rw [leave_shortened, leaves]; rfl) (behaves_tunnelTarget ?_)
      rwa [Behaves, blockAt_shortened]
    | giveBack leaves => exact .giveBack (by rw [leave_shortened, leaves]; rfl)

theorem behaves_shortened_iff :
    graph.shortened.Behaves meaning graph.shortened.entry state trace progress ↔
      graph.Behaves meaning graph.entry state trace progress := by
  have same : ∀ id, graph.shortened.Behaves meaning id state trace progress ↔
      graph.Behaves meaning id state trace progress := by
    intro id
    rw [Behaves, blockAt_shortened, executes_shortened_iff]
    rfl
  change graph.shortened.Behaves meaning (graph.tunnelTarget graph.entry) state trace progress ↔ _
  constructor
  · intro behaves
    exact (graph.tunnelTarget_spec graph.entry).1.behaves ((same _).mp behaves)
  · grind [behaves_tunnelTarget]

theorem Reaches.chain (reaches : graph.Reaches first) (chain : graph.Chain first last) :
    graph.Reaches last := by
  refine reaches.trans (.mono ?_ first last chain)
  intro before after forward
  rw [successors_eq, BasicBlock.successors, (forward?_eq_some forward).2.2]
  exact .head _

theorem Reaches.of_shortened (reaches : graph.shortened.Reaches id) : graph.Reaches id := by
  induction reaches with
  | refl => exact .chain .refl (graph.tunnelTarget_spec graph.entry).1
  | tail _ edge ih =>
    rw [successors_eq, blockAt_shortened] at edge
    cases ends : (graph.blockAt _).terminator with
    | none =>
      rw [ends] at edge
      cases edge
    | some exit =>
      rw [ends] at edge
      have mem := mem_successors_of_simplify edge
      rw [successors_retarget] at mem
      obtain ⟨other, other_mem, rfl⟩ := mem_map.mp mem
      refine .chain (.tail ih ?_) (graph.tunnelTarget_spec other).1
      rwa [successors_eq, BasicBlock.successors, ends]

theorem Closed.shortened (closed : graph.Closed) : graph.shortened.Closed := by
  intro id reaches
  have size_eq : graph.shortened.blocks.size = graph.blocks.size := by
    simp [Graph.shortened, simplify, tunnel, retarget]
  exact size_eq ▸ closed id reaches.of_shortened

/-! ## New numbers -/

theorem mark_sound (graph : Graph) {due : List BlockId} {seen : Array Bool}
    (waiting : ∀ id ∈ due, graph.Reaches id) (known : ∀ id, Marked seen id → graph.Reaches id)
    (marked : Marked (graph.mark fuel due seen) id) : graph.Reaches id := by
  induction fuel generalizing due seen with
  | zero => exact known id marked
  | succ fuel ih =>
    cases due with
    | nil => exact known id marked
    | cons first due =>
      have later := fun id mem => waiting id (.tail first mem)
      have first_reached := waiting first (.head _)
      rw [mark] at marked
      split at marked
      · exact ih later known marked
      · refine ih (fun other mem => ?_) (fun other other_marked => ?_) marked
        · rcases mem_append.mp mem with mem | mem
          · exact first_reached.tail (mem_reverse.mp mem)
          · exact later other mem
        · grind [Marked, getD_setIfInBounds_of_ne]

theorem Reaches.of_marked (marked : Marked graph.reachable id) : graph.Reaches id := by
  refine graph.mark_sound (fun other mem => ?_) (fun other marked => ?_) marked
  · rw [mem_singleton.mp mem]
    exact .refl
  · simp only [Marked, Array.getD_eq_getD_getElem?, Array.getElem?_replicate] at marked
    split at marked <;> cases marked

theorem Reaches.marked (reaches : graph.Reaches id) (inside : id < graph.blocks.size) :
    Marked graph.reachable id := by
  induction reaches with
  | refl => exact graph.reachable_closed.1 inside
  | @tail before _ _ edge ih =>
    have before_inside : before < graph.blocks.size := by
      grind [successors]
    exact graph.reachable_closed.2 _ (ih before_inside) _ edge inside

theorem Closed.marked_iff (closed : graph.Closed) : Marked graph.reachable id ↔ graph.Reaches id :=
  ⟨.of_marked, fun reaches => reaches.marked (closed id reaches)⟩

theorem Closed.mem_layoutOrder_iff (closed : graph.Closed) :
    id ∈ graph.layoutOrder ↔ graph.Reaches id := by
  rw [layoutOrder, mem_cons, mem_filter, mem_range, Bool.and_eq_true,
    decide_eq_true_eq]
  change _ ∨ _ ∧ _ ∧ Marked graph.reachable id ↔ _
  rw [closed.marked_iff]
  constructor
  · rintro (rfl | ⟨_, _, reaches⟩)
    · exact .refl
    · exact reaches
  · intro reaches
    by_cases same : id = graph.entry
    · exact .inl same
    · exact .inr ⟨closed id reaches, same, reaches⟩

end

theorem nodup_layoutOrder (graph : Graph) : graph.layoutOrder.Nodup := by
  refine nodup_cons.mpr ⟨fun mem => ?_, nodup_range.filter _⟩
  simp at mem

theorem getD_positions {count : Nat} {order : List BlockId} (nodup : order.Nodup) {id place : Nat}
    (found : order[place]? = some id) (inside : id < count) :
    (positions count order).getD id 0 = place := by
  have general : ∀ (entries : List (BlockId × Nat)) (table : Array BlockId), id < table.size →
      (entries.map Prod.fst).Nodup →
      ((id, place) ∈ entries ∨ id ∉ entries.map Prod.fst ∧ table.getD id 0 = place) →
      (entries.foldl (fun table entry => table.setIfInBounds entry.1 entry.2) table).getD id 0 =
        place := by
    intro entries
    induction entries with
    | nil =>
      simp
    | cons entry entries ih =>
      intro table bound nodup cases
      obtain ⟨new, nodup⟩ := nodup_cons.mp nodup
      refine ih _ (by rwa [Array.size_setIfInBounds]) nodup ?_
      have other : entry.1 ≠ id → (table.setIfInBounds entry.1 entry.2).getD id 0 =
          table.getD id 0 := by
        simp_all
      rcases cases with mem | ⟨absent, same⟩
      · rcases mem_cons.mp mem with rfl | mem
        · exact .inr ⟨new, by simp [bound]⟩
        · exact .inl mem
      · grind
  refine general order.zipIdx _ (by simpa using inside) ?_
    (.inl (mk_mem_zipIdx_iff_getElem?.mpr found))
  rwa [zipIdx_map_fst]

section Reordered

variable {order : List BlockId}

def placeOf (graph : Graph) (order : List BlockId) (id : BlockId) : BlockId :=
  (positions graph.blocks.size order).getD id 0

theorem blockAt_reorder {id place : BlockId} (found : order[place]? = some id) :
    (graph.reorder order).blockAt place =
      { graph.blockAt id with
        terminator := (graph.blockAt id).terminator.map
          (Terminator.retarget (graph.placeOf order)) } := by
  rw [blockAt, reorder, Array.getD_eq_getD_getElem?, getElem?_toArray, getElem?_map,
    found]
  rfl

theorem successors_reorder {id place : BlockId} (found : order[place]? = some id) :
    (graph.reorder order).successors place = (graph.successors id).map (graph.placeOf order) := by
  rw [successors_eq, successors_eq, BasicBlock.successors, BasicBlock.successors,
    blockAt_reorder found]
  cases (graph.blockAt id).terminator with
  | none => rfl
  | some exit => exact exit.successors_retarget

theorem leave_reorder {place : BlockId} (found : order[place]? = some src) (state : State) :
    (graph.reorder order).leave meaning place state =
      (graph.leave meaning src state).map (Sum.map (graph.placeOf order) id) := by
  rw [leave, leave, blockAt_reorder found]
  cases (graph.blockAt src).terminator with
  | none => rfl
  | some exit => exact meaning.follow_retarget (graph.placeOf order) state exit

end Reordered

theorem Closed.place (closed : graph.Closed) {id : BlockId} (reaches : graph.Reaches id) :
    graph.layoutOrder[graph.placeOf graph.layoutOrder id]? = some id := by
  obtain ⟨place, found⟩ := mem_iff_getElem?.mp (closed.mem_layoutOrder_iff.mpr reaches)
  rwa [placeOf, getD_positions graph.nodup_layoutOrder found (closed id reaches)]

variable {place : BlockId}

theorem Closed.placeOf_eq (closed : graph.Closed) {id : BlockId}
    (found : graph.layoutOrder[place]? = some id) :
    graph.Reaches id ∧ graph.placeOf graph.layoutOrder id = place := by
  have reaches := closed.mem_layoutOrder_iff.mp (mem_of_getElem? found)
  exact ⟨reaches, getD_positions graph.nodup_layoutOrder found (closed id reaches)⟩

theorem Reaches.leave (reaches : graph.Reaches src)
    (leaves : graph.leave meaning src state = some (.inl target)) : graph.Reaches target := by
  obtain ⟨exit, ends, follows⟩ := Option.bind_eq_some_iff.mp leaves
  refine reaches.tail ?_
  rw [successors_eq, BasicBlock.successors, ends]
  exact Interpretation.mem_successors_of_follow follows

theorem Closed.executes_reorder_iff (closed : graph.Closed) {id : BlockId}
    (found : graph.layoutOrder[place]? = some id) :
    (graph.reorder graph.layoutOrder).Executes meaning place due state trace progress ↔
      graph.Executes meaning id due state trace progress := by
  constructor
  · intro executes
    induction executes generalizing id with
    | rest => exact .rest _ _ _
    | act acts _ ih => exact .act acts (ih found)
    | follow leaves _ ih =>
      rw [leave_reorder found, Option.map_eq_some_iff] at leaves
      obtain ⟨target | values, leaves, same⟩ := leaves
      · cases same
        have next := closed.place ((closed.placeOf_eq found).1.leave leaves)
        rw [blockAt_reorder next] at ih
        exact .follow leaves (ih next)
      · cases same
    | giveBack leaves => exact .giveBack (by simpa [leave_reorder found, Sum.exists] using leaves)
  · intro executes
    induction executes generalizing place with
    | rest => exact .rest _ _ _
    | act acts _ ih => exact .act acts (ih found)
    | follow leaves _ ih =>
      have next := closed.place ((closed.placeOf_eq found).1.leave leaves)
      refine .follow (by rw [leave_reorder found, leaves]; rfl) ?_
      grind [blockAt_reorder]
    | giveBack leaves => exact .giveBack (by rw [leave_reorder found, leaves]; rfl)

theorem Closed.reaches_reorder (closed : graph.Closed)
    (inside : place < (graph.reorder graph.layoutOrder).blocks.size) :
    (graph.reorder graph.layoutOrder).Reaches place := by
  have general : ∀ id, graph.Reaches id →
      (graph.reorder graph.layoutOrder).Reaches (graph.placeOf graph.layoutOrder id) := by
    intro id reaches
    induction reaches with
    | refl =>
      have first : graph.layoutOrder[0]? = some graph.entry := rfl
      rw [(closed.placeOf_eq first).2]
      exact .refl
    | tail reaches edge ih =>
      refine ih.tail ?_
      rw [successors_reorder (closed.place reaches)]
      exact mem_map_of_mem edge
  have listed : place < graph.layoutOrder.length := by simpa [reorder] using inside
  have found : graph.layoutOrder[place]? = some graph.layoutOrder[place] :=
    getElem?_eq_getElem listed
  obtain ⟨reaches, same⟩ := closed.placeOf_eq found
  exact same ▸ general _ reaches

theorem placeOf_lt (order_ne : order ≠ []) (id : BlockId) :
    graph.placeOf order id < order.length := by
  refine List.foldlRecOn (motive := fun table : Array BlockId => table.getD id 0 < order.length)
    order.zipIdx _ ?_ fun table bound entry mem => ?_
  · have := List.length_pos_iff.mpr order_ne
    rw [Array.getD_eq_getD_getElem?, Array.getElem?_replicate]
    grind
  · have listed := (List.getElem?_eq_some_iff.mp (List.mk_mem_zipIdx_iff_getElem?.mp mem)).1
    simp only [Array.getD_eq_getD_getElem?, Array.getElem?_setIfInBounds] at bound ⊢
    grind

theorem successors_reorder_lt (edge : next ∈ (graph.reorder graph.layoutOrder).successors place) :
    next < (graph.reorder graph.layoutOrder).blocks.size := by
  have size_eq : (graph.reorder graph.layoutOrder).blocks.size = graph.layoutOrder.length := by
    simp [reorder]
  cases found : graph.layoutOrder[place]? with
  | none =>
    simp_all [successors]
  | some id =>
    rw [successors_reorder found] at edge
    obtain ⟨target, -, rfl⟩ := mem_map.mp edge
    rw [size_eq]
    exact placeOf_lt (cons_ne_nil _ _) target

/-- For every meaning of actions and tests and from every state, the layout of a graph shows what
the graph shows: the same first actions, however many, hence the same sequence, finite or not, and
the same return. Its blocks can all be reached from the entry, which is block zero, and lead to
blocks. Everything but the blocks stays. -/
theorem linearize_behaves (graph : Graph) (closed : graph.Closed) :
    (∀ (State : Type) (meaning : Interpretation State),
        graph.linearize.Behaves meaning 0 = graph.Behaves meaning graph.entry) ∧
      graph.linearize.entry = 0 ∧
      (∀ id < graph.linearize.blocks.size, graph.linearize.Reaches id) ∧
      (∀ id, ∀ next ∈ graph.linearize.successors id, next < graph.linearize.blocks.size) ∧
      { graph.linearize with blocks := graph.blocks, entry := graph.entry } = graph := by
  have shorter := closed.shortened
  refine ⟨fun State meaning => ?_, rfl, fun id inside => shorter.reaches_reorder inside,
    fun id next edge => successors_reorder_lt edge, rfl⟩
  funext state trace progress
  refine propext (Iff.trans ?_ behaves_shortened_iff)
  have first : graph.shortened.layoutOrder[0]? = some graph.shortened.entry := rfl
  change (graph.shortened.reorder graph.shortened.layoutOrder).Behaves meaning 0 state trace
    progress ↔ _
  rw [Behaves, shorter.executes_reorder_iff first, blockAt_reorder first]
  rfl

end Graph

/-- A counter that is shown at each turn until it is zero, and then a ring of empty blocks; the
entry is empty too. -/
def countdown : Graph where
  name := "countdown"
  blocks := #[{ terminator := some (.jump 1) },
    { actions := [.store { base := some 1 } (.reg 2)],
      terminator := some (.branch .eq 2 (.imm 0) 3 2) },
    { actions := [.bin .sub 2 2 (.imm 1) false], terminator := some (.jump 0) },
    { terminator := some (.jump 4) }, { terminator := some (.jump 3) }, {}]

theorem countdown_behaves :
    countdown.linearize.blocks.size = 4 ∧ ∀ (State : Type) (meaning : Interpretation State),
      countdown.linearize.Behaves meaning 0 = countdown.Behaves meaning countdown.entry := by
  have closed : countdown.Closed := by
    have stays : ∀ id < 5, ∀ next ∈ countdown.successors id, next < 5 := by decide
    intro id reaches
    refine Nat.lt_succ_of_lt ?_
    induction reaches with
    | refl => decide
    | tail _ edge ih => exact stays _ ih _ edge
  exact ⟨by decide +kernel, (countdown.linearize_behaves closed).1⟩

end Backend65816
