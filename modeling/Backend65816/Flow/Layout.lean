import Backend65816.Flow.Graph

/-!
# Layout of blocks

Jumps to blocks that only jump again go to the end of the chain. Blocks that cannot be reached are
dropped, and the others are numbered with the entry first, so that a block falls through to the next
number.
-/

namespace Backend65816

namespace Graph

/-- Where a block leads that does nothing but jump to another one. -/
def forward? (graph : Graph) (id : BlockId) : Option BlockId :=
  match graph.blocks[id]? with
  | some { actions := [], terminator := some (.jump target), .. } =>
    if target = id then none else some target
  | _ => none

/-- The end of a chain of such blocks. A ring is left where it closes. -/
def chainEnd (graph : Graph) : (fuel : Nat) → (visited : List BlockId) → BlockId → BlockId
  | 0, _, id => id
  | fuel + 1, visited, id =>
    if visited.contains id then id
    else
      match graph.forward? id with
      | some target => chainEnd graph fuel (id :: visited) target
      | none => id

/-- The block at which a jump to a block ends up. -/
def tunnelTarget (graph : Graph) (id : BlockId) : BlockId :=
  graph.chainEnd (graph.blocks.size + 1) [] id

/-- The graph with other targets at the ends of its blocks and another entry. -/
def retarget (graph : Graph) (rename : BlockId → BlockId) : Graph :=
  { graph with
    blocks := graph.blocks.map fun block =>
      { block with terminator := block.terminator.map (Terminator.retarget rename) }
    entry := rename graph.entry }

/-- Jumps go to the ends of chains. -/
def tunnel (graph : Graph) : Graph := graph.retarget graph.tunnelTarget

/-- A branch with two equal ways is a jump. -/
def simplifyTerminator : Terminator → Terminator
  | .branch condition left right thenBlock elseBlock =>
    if thenBlock = elseBlock then .jump thenBlock
    else .branch condition left right thenBlock elseBlock
  | terminator => terminator

/-- Ends of blocks without needless branches. -/
def simplify (graph : Graph) : Graph :=
  { graph with
    blocks := graph.blocks.map fun block =>
      { block with terminator := block.terminator.map simplifyTerminator } }

/-- The entry, and then the other reached blocks in the order of their numbers. -/
def layoutOrder (graph : Graph) : List BlockId :=
  let reached := graph.reachable
  graph.entry ::
    (List.range graph.blocks.size).filter fun id => id ≠ graph.entry && reached.getD id false

/-- New numbers of the blocks of an order; others are numbered 0. -/
def positions (count : Nat) (order : List BlockId) : Array BlockId :=
  (order.zipIdx.foldl (fun (table : Array BlockId) entry =>
    table.setIfInBounds entry.1 entry.2) (Array.replicate count 0))

/-- The blocks of an order, renumbered by their places in it. -/
def reorder (graph : Graph) (order : List BlockId) : Graph :=
  let position := positions graph.blocks.size order
  let rename (id : BlockId) : BlockId := position.getD id 0
  { graph with
    entry := 0
    blocks := (order.map fun id =>
      let block := graph.blocks.getD id {}
      { block with terminator := block.terminator.map (Terminator.retarget rename) }).toArray }

/-- The graph as its code is selected. -/
def linearize (graph : Graph) : Graph :=
  let simplified := graph.tunnel.simplify
  simplified.reorder simplified.layoutOrder

end Graph

end Backend65816
