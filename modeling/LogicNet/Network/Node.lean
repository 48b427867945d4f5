import LogicNet.Error
import LogicNet.Gate

/-! # Nodes

A node is a constant, a primary input or a gate.  The family of a network says which constants it
starts with, which gates it has, and whether its edges carry polarities.
-/

namespace LogicNet

inductive Family where
  | aig
  | mig
  /-- Table lookups over any number of fanins, without complemented edges. -/
  | klut
deriving Repr, DecidableEq

namespace Family

/-- Values of the nodes that a network starts with. -/
def constants : Family → List Bool
  | aig | mig => [false]
  | klut => [false, true]

def hasComplementedEdges : Family → Bool
  | aig | mig => true
  | klut => false

end Family

inductive NodeKind where
  | constant (value : Bool)
  | input
  | gate (function : GateFunction) (fanins : List Signal)
deriving Repr, DecidableEq

structure Node where
  kind : NodeKind
  /-- Number of fanin slots of live gates and of outputs that refer to the node. -/
  fanout : Nat := 0
  dead : Bool := false
  /-- Scratch fields, which callers may use as they like. -/
  value : UInt32 := 0
  visited : UInt32 := 0
deriving Repr, DecidableEq

namespace Node

def fanins (nd : Node) : List Signal :=
  match nd.kind with
  | .gate _ fanins => fanins
  | _ => []

def isGate (nd : Node) : Bool :=
  match nd.kind with
  | .gate .. => true
  | _ => false

def isInput (nd : Node) : Bool :=
  match nd.kind with
  | .input => true
  | _ => false

def isConstant (nd : Node) : Bool :=
  match nd.kind with
  | .constant _ => true
  | _ => false

def mapFanins (f : Signal → Signal) (nd : Node) : Node :=
  match nd.kind with
  | .gate function fanins => { nd with kind := .gate function (fanins.map f) }
  | _ => nd

/-- Number of fanin slots through which a live node refers to `n`. -/
def references (nd : Node) (n : Nat) : Nat :=
  if nd.dead then 0 else nd.fanins.countP (·.node == n)

end Node

end LogicNet
