import LogicNet.Network.Build

/-! # Scratch fields

Every node has two counters that belong to the callers.  They wrap around.
-/

namespace LogicNet.Network

def value (net : Network) (n : Nat) : Except Fault UInt32 := return (← net.node n).value

def visited (net : Network) (n : Nat) : Except Fault UInt32 := return (← net.node n).visited

def clearValues : Edit Unit := modify (·.mapNodes fun nd => { nd with value := 0 })

def clearVisited : Edit Unit := modify (·.mapNodes fun nd => { nd with visited := 0 })

def setValue (n : Nat) (value : UInt32) : Edit Unit := do
  let net ← get
  let _ ← net.node n
  set (net.modifyNode n fun nd => { nd with value })

def setVisited (n : Nat) (visited : UInt32) : Edit Unit := do
  let net ← get
  let _ ← net.node n
  set (net.modifyNode n fun nd => { nd with visited })

/-- Adds one to the value; the result is the value before. -/
def incrementValue (n : Nat) : Edit UInt32 := do
  let value ← (← get).value n
  setValue n (value + 1)
  return value

/-- Takes one from the value; the result is the value after. -/
def decrementValue (n : Nat) : Edit UInt32 := do
  let value ← (← get).value n
  setValue n (value - 1)
  return value - 1

end LogicNet.Network
