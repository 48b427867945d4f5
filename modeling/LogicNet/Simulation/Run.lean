import LogicNet.Network.Order
import LogicNet.Simulation.Stimulus

/-! # Simulation

The nodes in the cones of the outputs are evaluated in topological order.
-/

namespace LogicNet.Network

variable {V : Type} [LaneValue V]

/-- Refuses values that do not fit the fanins of a gate, or that differ in their number of lanes. -/
def checkFaninValues (net : Network) (n : Nat) (values : List V) : Except NetworkError Unit := do
  let fanins ← net.checkGate n
  if values.length ≠ fanins.length then throw (.arityMismatch fanins.length values.length)
  match values with
  | [] => return ()
  | first :: rest =>
    let width := LaneValue.laneCount first
    rest.forM fun v => do
      if LaneValue.laneCount v ≠ width then
        throw (.valueWidthMismatch width (LaneValue.laneCount v))

/-- Value of a gate function, given the fanins and the values of their nodes. -/
def evaluate (functions : FunctionCache) (function : GateFunction) (fanins : List Signal)
    (values : List V) : Except Fault V := do
  let operands := fanins.zipWith (fun s v => LaneValue.complementIf v s.complemented) values
  match function, operands with
  | .and, [a, b] => LaneValue.and a b
  | .maj, [a, b, c] => LaneValue.maj a b c
  | .table f, first :: rest => LaneValue.lookup (← functions.get f) first (first :: rest)
  | .and, operands => throw (.wrongArity 2 operands.length)
  | .maj, operands => throw (.wrongArity 3 operands.length)
  | .table _, [] => throw .noSignals

/-- Value of a gate, given one value per fanin node in slot order. -/
def compute (net : Network) (n : Nat) (values : List V) : Except Failure V := do
  net.checkFaninValues n values
  match (← net.node n).kind with
  | .gate function fanins => evaluate net.functions function fanins values
  | _ => throw (.fault (.notAGate n))

def knownValue (values : Array (Option V)) (n : Nat) : Except Failure V :=
  match values.getD n none with
  | some v => .ok v
  | none => .error (.refused (.nodeOutOfRange n values.size))

def simulateNode (net : Network) (stimulus : Stimulus V) (values : Array (Option V)) (n : Nat) :
    Except Failure (Array (Option V)) := do
  let v ←
    if net.isConstant n then stimulus.constant (net.constantValue n)
    else
      match ← net.inputIndex? n with
      | some i => stimulus.input i
      | none => do
        let fanins ← net.fanins n
        net.compute n (← fanins.mapM fun s => knownValue values s.node)
  return values.setIfInBounds n (some v)

/-- Values of the nodes in the cones of the outputs, by node. -/
def simulateNodes (net : Network) (stimulus : Stimulus V) : Except Failure (Array (Option V)) := do
  if stimulus.numInputs ≠ net.numInputs then
    throw (.refused (.inputCountMismatch net.numInputs stimulus.numInputs))
  (← net.topologicalOrder).foldlM (net.simulateNode stimulus) (Array.replicate net.size none)

def simulate (net : Network) (stimulus : Stimulus V) : Except Failure (List V) := do
  let values ← net.simulateNodes stimulus
  net.outputs.mapM fun s => do
    return LaneValue.complementIf (← knownValue values s.node) s.complemented

/-- Truth tables of the outputs over the primary inputs. -/
def outputTables (net : Network) : Except Failure (List TruthTable) :=
  net.simulate (.allRows net.numInputs)

end LogicNet.Network
