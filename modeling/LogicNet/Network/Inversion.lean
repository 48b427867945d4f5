import LogicNet.Network.Substitution

/-! # Inverting gates

Majority is its own dual: complementing all fanins of a majority gate complements the gate.
Inverting a gate complements its fanins and every reference to it, which keeps all other functions.
-/

namespace LogicNet.Network

def flipped (n : Nat) (s : Signal) : Signal := if s.node = n then s.complement else s

/-- Enters a gate into the table again; nothing may be equal to it. -/
def rekeyUnique (net : Network) (n : Nat) : Except Fault Network := do
  match ← net.rekey n with
  | (net, none) => return net
  | (_, some s) => throw (.becameRedundant n s)

/-- The network after complementing the fanins and the references of a gate. -/
def inverted (net : Network) (n : Nat) : Except Fault Network := do
  let gates := n :: net.parents n
  let net ← gates.foldlM evict net
  let net := net.modifyNode n (·.mapFanins Signal.complement)
  let net := net.mapReferences (flipped n)
  gates.foldlM rekeyUnique net

def checkLiveGate (net : Network) (n : Nat) : Except NetworkError Unit := do
  let _ ← net.checkGate n
  net.checkLive n

/-- Complements every fanin of a majority gate and every use of the gate. -/
def invertGate (n : Nat) : Edit Unit := do
  requireFamily .mig
  let net ← get
  net.checkLiveGate n
  set (← net.inverted n)

end LogicNet.Network
