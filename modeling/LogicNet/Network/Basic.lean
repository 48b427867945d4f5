import LogicNet.GateTable
import LogicNet.Network.Node

/-! # Logic networks

A network is a growing list of nodes: the constants of its family first, then primary inputs and
gates in the order of their creation.  Nodes are never removed; a released gate is marked dead.
Besides the nodes a network keeps its inputs and outputs, the structural hash table of its live
gates, and the cache of the functions that its table gates use.
-/

namespace LogicNet

structure Network where
  family : Family
  nodes : Array Node
  inputs : List Nat
  outputs : List Signal
  gateTable : GateTable
  functions : FunctionCache
deriving Repr, DecidableEq

namespace Network

/-- The network of a family that holds its constants only. -/
def empty (family : Family) : Network where
  family
  nodes := (family.constants.map fun value => { kind := .constant value }).toArray
  inputs := []
  outputs := []
  gateTable := .empty
  functions := if family = .klut then .seeded else .empty

/-- Number of nodes ever created, constants and dead nodes included. -/
def size (net : Network) : Nat := net.nodes.size

def numInputs (net : Network) : Nat := net.inputs.length

def numOutputs (net : Network) : Nat := net.outputs.length

def numGates (net : Network) : Nat :=
  net.size - net.numInputs - net.family.constants.length

def node (net : Network) (n : Nat) : Except Fault Node :=
  match net.nodes[n]? with
  | some nd => .ok nd
  | none => .error (.nodeOutOfRange n net.size)

def fanins (net : Network) (n : Nat) : Except Fault (List Signal) := return (← net.node n).fanins

def inputAt (net : Network) (i : Nat) : Except Fault Nat :=
  match net.inputs[i]? with
  | some n => .ok n
  | none => .error (.indexOutOfRange i net.numInputs)

def outputAt (net : Network) (i : Nat) : Except Fault Signal :=
  match net.outputs[i]? with
  | some s => .ok s
  | none => .error (.indexOutOfRange i net.numOutputs)

def constant (net : Network) (value : Bool) : Signal :=
  if net.family.hasComplementedEdges then ⟨0, value⟩ else .ofNode value.toNat

def isConstant (net : Network) (n : Nat) : Bool := net.nodes[n]?.any (·.isConstant)

/-- Value of a constant node, false for other nodes. -/
def constantValue (net : Network) (n : Nat) : Bool :=
  match net.nodes[n]? with
  | some { kind := .constant value, .. } => value
  | _ => false

def isLive (net : Network) (n : Nat) : Bool := net.nodes[n]?.any (!·.dead)

def isLiveGate (net : Network) (n : Nat) : Bool := net.nodes[n]?.any fun nd => !nd.dead && nd.isGate

def liveNodes (net : Network) : List Nat := (List.range net.size).filter net.isLive

def liveGates (net : Network) : List Nat := (List.range net.size).filter net.isLiveGate

def inputIndex? (net : Network) (n : Nat) : Except Fault (Option Nat) := do
  if (← net.node n).isInput then return net.inputs.idxOf? n else return none

/-- Live gates with a fanin on `n`, in creation order. -/
def parents (net : Network) (n : Nat) : List Nat :=
  net.liveGates.filter fun p => net.nodes[p]?.any (·.fanins.any (·.node == n))

/-- Number of fanin slots of live gates and of outputs that refer to `n`. -/
def references (net : Network) (n : Nat) : Nat :=
  (net.nodes.toList.map (·.references n)).sum + net.outputs.countP (·.node == n)

/-- Counts one more reference to the node of a signal. -/
def countReference (counts : Array Nat) (s : Signal) : Array Nat := counts.modify s.node (· + 1)

/-- The references to every node, counted all together. -/
def referenceCounts (net : Network) : Array Nat :=
  let ofNodes := net.nodes.toList.foldl
    (fun counts nd => if nd.dead then counts else nd.fanins.foldl countReference counts)
    (Array.replicate net.size 0)
  net.outputs.foldl countReference ofNodes

def modifyNode (net : Network) (n : Nat) (f : Node → Node) : Network :=
  { net with nodes := net.nodes.modify n f }

def mapNodes (net : Network) (f : Node → Node) : Network :=
  { net with nodes := (net.nodes.toList.map f).toArray }

/-- Refuses a node that the network does not have. -/
def checkNode (net : Network) (n : Nat) : Except NetworkError Unit :=
  if n < net.size then .ok () else .error (.nodeOutOfRange n net.size)

/-- Refuses a node that is not a gate; gives its fanins. -/
def checkGate (net : Network) (n : Nat) : Except NetworkError (List Signal) :=
  match net.nodes[n]? with
  | none => .error (.nodeOutOfRange n net.size)
  | some nd => if nd.isGate then .ok nd.fanins else .error (.notAGate n)

/-- Refuses a node that is dead; the node is known to exist. -/
def checkLive (net : Network) (n : Nat) : Except NetworkError Unit :=
  if net.isLive n then .ok () else .error (.deadNode n)

theorem getElem?_foldl_countReference (signals : List Signal) (counts : Array Nat) (n : Nat) :
    (signals.foldl countReference counts)[n]?
      = counts[n]?.map (· + signals.countP (·.node == n)) := by
  induction signals generalizing counts with
  | nil => simp
  | cons s signals ih =>
    rw [List.foldl_cons, ih, countReference, Array.getElem?_modify, List.countP_cons]
    by_cases h : s.node = n
    · simp [h, Function.comp_def, Nat.add_assoc, Nat.add_comm 1]
    · simp [h]

theorem getElem?_referenceCounts {net : Network} {n : Nat} (h : n < net.size) :
    net.referenceCounts[n]? = some (net.references n) := by
  have hnodes : ∀ (nodes : List Node) (counts : Array Nat),
      (nodes.foldl (fun counts nd => if nd.dead then counts
        else nd.fanins.foldl countReference counts) counts)[n]?
        = counts[n]?.map (· + (nodes.map (·.references n)).sum) := by
    intro nodes
    induction nodes with
    | nil => simp
    | cons nd nodes ih =>
      intro counts
      rw [List.foldl_cons, ih]
      by_cases hdead : nd.dead
      · simp [hdead, Node.references]
      · simp [hdead, Node.references, getElem?_foldl_countReference, Function.comp_def,
          Nat.add_assoc]
  rw [referenceCounts, getElem?_foldl_countReference, hnodes]
  simp [references, h]

@[simp] theorem getElem?_mapNodes (net : Network) (f : Node → Node) (n : Nat) :
    (net.mapNodes f).nodes[n]? = net.nodes[n]?.map f := by
  simp [mapNodes]

@[simp] theorem size_mapNodes (net : Network) (f : Node → Node) :
    (net.mapNodes f).size = net.size := by
  simp [mapNodes, size]

@[simp] theorem getElem?_modifyNode (net : Network) (f : Node → Node) (m n : Nat) :
    (net.modifyNode m f).nodes[n]? = if m = n then net.nodes[n]?.map f else net.nodes[n]? := by
  simp [modifyNode, Array.getElem?_modify]

@[simp] theorem size_modifyNode (net : Network) (f : Node → Node) (m : Nat) :
    (net.modifyNode m f).size = net.size := by
  simp [modifyNode, size]

end Network

end LogicNet
