import LogicNet.Network.Order

/-! # Summary statistics -/

namespace LogicNet

structure Summary where
  numInputs : Nat
  numOutputs : Nat
  /-- Gates ever created, released ones included. -/
  numGates : Nat
  /-- Gates in the cones of the outputs. -/
  liveGates : Nat
  depth : Nat
  complementedEdges : Nat
  /-- Fanout counts of the live inputs and gates with their frequencies, ascending. -/
  fanoutHistogram : List (Nat × Nat)
deriving Repr, DecidableEq

namespace Network

/-- A complemented edge that counts: one from a constant does not. -/
def isCountedEdge (net : Network) (s : Signal) : Bool := s.complemented && !net.isConstant s.node

/-- Complemented fanins of live gates, other than constants, and complemented outputs. -/
def countComplementedEdges (net : Network) : Nat :=
  (net.nodes.toList.map fun nd => if nd.dead then 0 else nd.fanins.countP net.isCountedEdge).sum
    + net.outputs.countP (·.complemented)

def histogram (counts : List Nat) : List (Nat × Nat) :=
  (List.range (counts.foldl max 0 + 1)).filterMap fun k =>
    let frequency := counts.count k
    if frequency = 0 then none else some (k, frequency)

def summary (net : Network) : Except Fault Summary := do
  let order ← net.topologicalOrder
  let fanouts := net.nodes.toList.filterMap fun nd =>
    if nd.dead || nd.isConstant then none else some nd.fanout
  return {
    numInputs := net.numInputs
    numOutputs := net.numOutputs
    numGates := net.numGates
    liveGates := order.countP fun n => net.nodes[n]?.any (·.isGate)
    depth := ← net.depth
    complementedEdges := net.countComplementedEdges
    fanoutHistogram := histogram fanouts }

end Network

end LogicNet
