import LogicNet.Network.Function

/-! # Building networks

Each call makes one signal.  A gate is first brought into canonical form; a gate of the same key
that is alive already is used again.  A call that is refused leaves the network as it was.
-/

namespace LogicNet

/-- A change of a network that gives a result or fails. -/
abbrev Edit := EStateM Failure Network

namespace Network

def requireFamily (family : Family) : Edit Unit := do
  unless (← get).family = family do throw (.fault .notSupported)

/-- Counts one more reference to a live node. -/
def addReference (net : Network) (s : Signal) : Except Fault Network := do
  if (← net.node s.node).dead then throw (.deadFanin s)
  return net.modifyNode s.node fun nd => { nd with fanout := nd.fanout + 1 }

/-- Appends the gate of a key and enters it into the table. -/
def addGate (net : Network) (key : GateKey) : Except Fault (Signal × Network) := do
  let net ← key.fanins.foldlM addReference net
  let s := Signal.ofNode net.size
  return (s, { net with
    nodes := net.nodes.push { kind := .gate key.function key.fanins }
    gateTable := net.gateTable.insert key s })

/-- The signal of a key: a live gate that has it already, or a new one. -/
def findOrAdd (net : Network) (key : GateKey) : Except Fault (Signal × Network) := do
  match net.gateTable.get? key with
  | none => net.addGate key
  | some hit =>
    if (← net.node hit.node).dead then
      addGate { net with gateTable := net.gateTable.erase key } key
    else return (hit, net)

def hashCons (function : GateFunction) (fanins : List Signal) : Edit Signal := do
  let net ← get
  match ← Canonical.ofGate net.functions function fanins with
  | .trivial s => return s
  | .gate key flip =>
    let (s, net) ← net.findOrAdd key
    set net
    return s.complementIf flip

def createInput : Edit Signal := do
  let net ← get
  set { net with nodes := net.nodes.push { kind := .input }, inputs := net.inputs ++ [net.size] }
  return .ofNode net.size

/-- Makes a signal an output; the result is the position of the output. -/
def createOutput (s : Signal) : Edit Nat := do
  let net ← get
  let _ ← net.node s.node
  set { net.modifyNode s.node fun nd => { nd with fanout := nd.fanout + 1 } with
    outputs := net.outputs ++ [s] }
  return net.numOutputs

/-- The literal of a table, which the cache holds from then on. -/
def internFunction (t : TruthTable) : Edit FunctionLiteral := do
  let net ← get
  let (f, functions) := net.functions.insert t
  set { net with functions }
  return f

def tableGate (f : FunctionLiteral) (nodes : List Nat) : Edit Signal :=
  hashCons (.table f) (nodes.map Signal.ofNode)

/-- A table gate over the nodes of signals, with a table given by a word. -/
def wordGate (word : BitVec 64) (operands : List Signal) : Edit Signal := do
  let f ← internFunction (.word operands.length word)
  tableGate f (operands.map (·.node))

def createNot (a : Signal) : Edit Signal := do
  match (← get).family with
  | .aig | .mig => return a.complement
  | .klut => tableGate .inverter [a.node]

def createAnd (a b : Signal) : Edit Signal := do
  let net ← get
  match net.family with
  | .aig => hashCons .and [a, b]
  | .mig => hashCons .maj [net.constant false, a, b]
  | .klut => tableGate .conjunction [a.node, b.node]

def createOr (a b : Signal) : Edit Signal := do
  let net ← get
  match net.family with
  | .aig => return (← hashCons .and [a.complement, b.complement]).complement
  | .mig => hashCons .maj [net.constant true, a, b]
  | .klut => wordGate 0xe [a, b]

def createXor (a b : Signal) : Edit Signal := do
  match (← get).family with
  | .aig | .mig =>
    let left ← createAnd a b.complement
    let right ← createAnd a.complement b
    createOr left right
  | .klut => wordGate 0x6 [a, b]

def createMaj (a b c : Signal) : Edit Signal := do
  match (← get).family with
  | .aig =>
    let (a, b, c) := Signal.sort3 a b c
    let both ← createAnd a b
    let either ← createOr a b
    let withLast ← createAnd c either
    createOr both withLast
  | .mig => hashCons .maj [a, b, c]
  | .klut => wordGate 0xe8 [a, b, c]

def createNand (a b : Signal) : Edit Signal := do createNot (← createAnd a b)

def createXor3 (a b c : Nat) : Edit Signal := do
  requireFamily .klut
  wordGate 0x96 [.ofNode a, .ofNode b, .ofNode c]

def maxFanins : Nat := 16

/-- Refuses a table gate that cannot be made over the given nodes. -/
def checkTable (net : Network) (nodes : List Nat) (t : TruthTable) : Except NetworkError Unit := do
  if t.numVars ≠ nodes.length then throw (.arityMismatch t.numVars nodes.length)
  if maxFanins < nodes.length then throw (.arityMismatch maxFanins nodes.length)
  nodes.forM fun n => do
    net.checkNode n
    net.checkLive n

/-- A table gate over nodes, node `j` being variable `j`.  Without variables it is a constant. -/
def createTable (nodes : List Nat) (t : TruthTable) : Edit Signal := do
  requireFamily .klut
  let net ← get
  net.checkTable nodes t
  if nodes.isEmpty then return net.constant (!t.isConstFalse)
  tableGate (← internFunction t) nodes

/-- Makes the gate `n` of `source` over fanins that carry the polarity of each slot. -/
def cloneGate (source : Network) (n : Nat) (fanins : List Signal) : Edit Signal := do
  let slots ← source.checkGate n
  if slots.length ≠ fanins.length then
    throw (.refused (.arityMismatch slots.length fanins.length))
  match (← get).family with
  | .aig => hashCons .and fanins
  | .mig => hashCons .maj fanins
  | .klut => createTable (fanins.map (·.node)) (← source.nodeFunction n)

end Network

end LogicNet
