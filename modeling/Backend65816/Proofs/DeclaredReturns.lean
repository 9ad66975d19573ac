import Backend65816.Proofs.AddedStatements
import Backend65816.Proofs.BlockLayout

/-!
# Returns hand over what is declared

Every return of a lowered function hands over the values of its convention. The end of a body that
nothing reaches is closed by a return without values. That return names no block, so it makes
nothing reachable, and the finished graph leaves its block out.
-/

namespace Backend65816

open Draft

variable {vals : List VReg}

namespace Draft

variable {draft : Draft} {name : String} {mode : Mode} {id : BlockId}

theorem endOf?_eq : draft.endOf? id = ((draft.graph name mode).blockAt id).terminator := by
  change _ = (draft.blocks.getD id {}).terminator
  rw [Array.getD_eq_getD_getElem?, endOf?, codeAt]
  cases draft.blocks[id]? <;> rfl

theorem mem_successors_graph {next : BlockId} : next ∈ (draft.graph name mode).successors id ↔
    ∃ term, draft.endOf? id = some term ∧ next ∈ term.successors := by
  rw [Graph.successors_eq, BasicBlock.successors, ← endOf?_eq]
  cases draft.endOf? id <;> simp

/-- A return makes no block reachable. -/
theorem marked_of_returned (inside : id < draft.blocks.size)
    (marked : Graph.Marked ((draft.terminate (.giveBack vals)).graph name mode).reachable id) :
    Graph.Marked (draft.graph "" .narrow).reachable id := by
  have reaches := Graph.Reaches.of_marked marked
  have reaches' : (draft.graph "" .narrow).Reaches id := by
    refine Relation.ReflTransGen.mono (fun before after edge => ?_) _ _ reaches
    obtain ⟨term, ends, mem⟩ := mem_successors_graph.mp edge
    rcases eq_of_endOf?_terminate ends with ends | ⟨-, rfl⟩
    · exact mem_successors_graph.mpr ⟨term, ends, mem⟩
    · cases mem
  exact reaches'.marked inside

theorem exists_return_of_finish {block : BasicBlock} (mem : block ∈ (draft.finish name mode).blocks)
    (ends : block.terminator = some (.giveBack vals)) :
    ∃ id, Graph.Marked (draft.graph name mode).reachable id ∧
      draft.endOf? id = some (.giveBack vals) := by
  rw [List.mem_toArray] at mem
  obtain ⟨id, listed, rfl⟩ := List.mem_map.mp mem
  obtain ⟨term, found, same⟩ := Option.map_eq_some_iff.mp ends
  refine ⟨id, (List.mem_filter.mp listed).2, ?_⟩
  cases term with
  | giveBack vals =>
    cases same
    exact endOf?_eq.trans found
  | jump | branch | jumpTable => cases same

end Draft

theorem Lower.function_givesBack {context : UnitContext} {signature : Signature} {body : Block}
    {draft : Draft} (ran : function body { context, signature } {} = .ok ((), draft))
    {name : String} {mode : Mode} {id : BlockId} {values : List VReg}
    (marked : Graph.Marked (draft.graph name mode).reachable id)
    (ended : draft.endOf? id = some (.giveBack values)) :
    signature.GivesBack draft.vregs values := by
  obtain ⟨entered, tail, mid, enters, computed, closed⟩ := function_ok ran
  let piece : Piece := ⟨context, signature, body.nodes, {}, false⟩
  have ⟨built, _⟩ := (piece.executes_enterParams [] {}).made (.refl _)
    (.start (wellFormed_empty signs)) enters
  have ⟨built, _⟩ := (body.values piece (List.Subset.refl _) [] _ _).made (.refl _) built computed
  have fits {draft : Draft} (built : piece.Built draft)
      (ended : draft.endOf? id = some (.giveBack values)) :
      signature.GivesBack draft.vregs values := by
    rcases built.returned ended with early | whole | gives
    · cases id <;> cases early
    · cases whole
    · exact gives
  rcases closed with ⟨-, rfl⟩ | ⟨alive, fell⟩
  · exact fits built ended
  · rcases fallOff_ok fell with ⟨rfl, unreached⟩ | ⟨-, returned⟩ | ⟨-, ⟨returning, none⟩, rfl⟩
    · rw [terminate_vregs]
      rcases eq_of_endOf?_terminate ended with earlier | ⟨rfl, -⟩
      · exact fits built earlier
      · rw [reopen_of_alive alive] at marked ended
        have inside : mid.current < mid.blocks.size := by
          by_contra outside
          simp [Draft.endOf?, Draft.codeAt, Draft.terminate, reopen_of_alive alive,
            Draft.modifyCurrent, outside] at ended
        exact absurd (marked_of_returned inside marked) unreached
    · exact fits (Piece.makes_returnValues _ |>.made (.refl _) built returned).1 ended
    · rw [terminate_vregs]
      rcases eq_of_endOf?_terminate ended with earlier | ⟨-, same⟩
      · exact fits built earlier
      · cases same
        exact ⟨returning, none ▸ rfl⟩

/-- Every return of a lowered function hands over one register for each declared place, fixed to the
place and of its width. A function that does not return has no return. -/
theorem UnitContext.lower_givesBack {context : UnitContext} {signature : Signature} {body : Block}
    {graph : Graph} (lowered : context.lower signature body = .ok graph) {block : BasicBlock}
    (mem : block ∈ graph.blocks) {values : List VReg}
    (ends : block.terminator = some (.giveBack values)) :
    signature.GivesBack graph.vregs values := by
  obtain ⟨draft, made, rfl⟩ := UnitContext.lower_ok lowered
  obtain ⟨id, marked, ended⟩ := exists_return_of_finish mem ends
  exact Lower.function_givesBack made marked ended

def choosing : Block :=
  .mk [.conditional (.name "up") (.mk [.giveBack [.int 1 .u8, .int 2 .u16]] none)
    (.block (.mk [.giveBack [.int 3 .u8, .int 4 .u16]] none))] none

def choosingSignature : Signature where
  name := "choose"
  mode := .narrow
  params := [{ name := "up", type := .bool, width := .byte, place := .bound (.reg .a) }]
  returns := [{ type := .u8, width := .byte, location := .reg .a },
    { type := .u16, width := .word, location := .reg .x }]

/-- Both ways return, so that the end of the body is not reached. The places are filled in the order
`x`, `a`, and the registers are handed over in the order of declaration. -/
theorem choosing_givesBack : ∃ graph block,
    climbContext.lower choosingSignature choosing = .ok graph ∧ graph.blocks.size = 3 ∧
      block ∈ graph.blocks ∧ block.terminator = some (.giveBack [6, 5]) ∧
      choosingSignature.GivesBack graph.vregs [6, 5] := by
  have facts : (climbContext.lower choosingSignature choosing).toOption.map (fun graph =>
      (graph.blocks.size, graph.blocks[1]?.map BasicBlock.terminator)) =
        some (3, some (some (.giveBack [6, 5]))) := by decide +kernel
  cases lowered : climbContext.lower choosingSignature choosing with
  | error failure =>
    rw [lowered] at facts
    cases facts
  | ok graph =>
    rw [lowered] at facts
    obtain ⟨size_eq, found⟩ := Prod.mk.inj (Option.some.inj facts)
    obtain ⟨block, block_at, ends⟩ := Option.map_eq_some_iff.mp found
    have mem := Array.mem_of_getElem? block_at
    exact ⟨graph, block, rfl, size_eq, mem, ends, UnitContext.lower_givesBack lowered mem ends⟩

end Backend65816
