import LogicNet.Network.Basic

/-! # Functions of nodes -/

namespace LogicNet

/-- Coarse classification of a node. -/
inductive GateKind where
  | constant
  | input
  | and
  | xor
  | xor3
  | maj
  | lut
deriving Repr, DecidableEq

def GateKind.ofTable (t : TruthTable) : GateKind :=
  if t = .word 2 0x8 then and
  else if t = .word 2 0x6 then xor
  else if t = .word 3 0x96 then xor3
  else if t = .word 3 0xe8 then maj
  else lut

def FunctionCache.tableOf (functions : FunctionCache) : GateFunction → Except Fault TruthTable
  | .and => .ok (.word 2 0x8)
  | .maj => .ok (.word 3 0xe8)
  | .table f => functions.get f

namespace Network

/-- The function of a node over its fanin nodes, before edges are complemented.  An input is the
identity on one variable, a constant has no variable. -/
def nodeFunction (net : Network) (n : Nat) : Except Fault TruthTable := do
  match (← net.node n).kind with
  | .constant value => return .const 0 value
  | .input => return .var 1 0
  | .gate function _ => net.functions.tableOf function

def gateKind (net : Network) (n : Nat) : Except Fault GateKind := do
  match (← net.node n).kind with
  | .constant _ => return .constant
  | .input => return .input
  | .gate function _ => return .ofTable (← net.functions.tableOf function)

end Network

end LogicNet
