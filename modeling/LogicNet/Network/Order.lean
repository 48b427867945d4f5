import LogicNet.Network.Basic
import LogicNet.Visited
import LogicNet.Worklist

/-! # Topological order and depth

Creation order stops being topological once a substitution redirects a fanin to a younger node.  The
order used instead is the postorder of the transitive fanin.
-/

namespace LogicNet.Network

/-- Visits a node whose fanins are visited, or goes down into the first one that is not and comes
back afterwards. -/
def postorderStep (net : Network) (visited : Visited) (n : Nat) :
    Except Fault (Visited × List Nat) := do
  let fanins ← net.fanins n
  if n ∈ visited then return (visited, [])
  else
    match fanins.find? (·.node ∉ visited) with
    | some s => return (visited, [s.node, n])
    | none => return (visited.push n, [])

/-- The transitive fanin of the roots, every node after its fanins. -/
def postorder (net : Network) (roots : List Nat) : Except Fault (List Nat) := do
  let visited ← Worklist.drain net.postorderStep (roots.length + 2 * net.size + 1) .empty roots
  return visited.nodes.reverse

def topologicalOrder (net : Network) : Except Fault (List Nat) :=
  net.postorder (net.outputs.map (·.node))

/-- Enters the level of a gate: one more than the highest level among its fanins. -/
def enterLevel (net : Network) (levels : Array Nat) (n : Nat) : Except Fault (Array Nat) := do
  let nd ← net.node n
  if nd.isGate then
    let below := nd.fanins.map fun s => levels.getD s.node 0
    return levels.setIfInBounds n (below.foldl max 0 + 1)
  else return levels

def depth (net : Network) : Except Fault Nat := do
  let levels ← (← net.topologicalOrder).foldlM net.enterLevel (Array.replicate net.size 0)
  return levels.toList.foldl max 0

end LogicNet.Network
