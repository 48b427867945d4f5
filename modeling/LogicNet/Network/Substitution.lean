import LogicNet.Network.Build
import LogicNet.Visited
import LogicNet.Worklist

/-! # Substitution

Substituting a signal for a node redirects every reference to the node and releases it.  A gate over
redirected fanins may become equal to a signal that exists already; it is then substituted in turn,
so that no two live gates share a key afterwards.
-/

namespace LogicNet.Network

/-- Canonical form of a gate over its present fanins. -/
def canonical (net : Network) (n : Nat) : Except Fault Canonical := do
  match (← net.node n).kind with
  | .gate function fanins => Canonical.ofGate net.functions function fanins
  | _ => throw (.notAGate n)

def evict (net : Network) (n : Nat) : Except Fault Network := do
  match ← net.canonical n with
  | .trivial _ => return net
  | .gate key _ =>
    if (net.gateTable.get? key).any (·.node == n) then
      return { net with gateTable := net.gateTable.erase key }
    else return net

/-- Enters a gate into the table under its present key, or gives the signal that it is equal to: a
trivial one, or another live gate of the same key. -/
def rekey (net : Network) (n : Nat) : Except Fault (Network × Option Signal) := do
  match ← net.canonical n with
  | .trivial s => return (net, some s)
  | .gate key flip =>
    let entered := { net with gateTable := net.gateTable.insert key ⟨n, flip⟩ }
    match net.gateTable.get? key with
    | none => return (entered, none)
    | some hit =>
      if hit.node = n then return (entered, none)
      else if (← net.node hit.node).dead then return (entered, none)
      else return (net, some (hit.complementIf flip))

/-- Counts one reference less; a gate that lost its last one is put on the list. -/
def dropReference : Network × List Nat → Signal → Except Fault (Network × List Nat)
  | (net, freed), s => do
    let nd ← net.node s.node
    let rest := nd.fanout - 1
    let net := net.modifyNode s.node fun nd => { nd with fanout := rest }
    if rest = 0 && !nd.dead && nd.isGate then return (net, s.node :: freed)
    else return (net, freed)

def retire (net : Network) (n : Nat) : Except Fault Network := do
  return (← net.evict n).modifyNode n fun nd => { nd with dead := true, fanout := 0 }

/-- Retires a live gate and drops the references of its fanins. -/
def releaseStep (net : Network) (n : Nat) : Except Fault (Network × List Nat) := do
  let nd ← net.node n
  if nd.dead then return (net, [])
  else nd.fanins.foldlM dropReference (← net.retire n, [])

def numSlots (net : Network) : Nat := (net.nodes.toList.map (·.fanins.length)).sum

/-- Releases a gate, and every gate that loses its last reference with it. -/
def release (net : Network) (n : Nat) : Except Fault Network :=
  Worklist.drain releaseStep (net.numSlots + 1) net [n]

def releaseGate (net : Network) (n : Nat) : Except Fault Network := do
  if (← net.node n).isGate then net.release n else return net

/-- The signal that a reference becomes once `new` stands for the node `old`. -/
def redirected (old : Nat) (new s : Signal) : Signal :=
  if s.node = old then new.complementIf s.complemented else s

def mapReferences (net : Network) (f : Signal → Signal) : Network :=
  { net.mapNodes fun nd => if nd.dead then nd else nd.mapFanins f with
    outputs := net.outputs.map f }

/-- Enters a live gate into the table again, or queues its substitution. -/
def rekeyParent : Network × List (Nat × Signal) → Nat →
    Except Fault (Network × List (Nat × Signal))
  | (net, queue), p => do
    if (← net.node p).dead then return (net, queue)
    else
      let (net, found) ← net.rekey p
      return (net, (found.map fun s => (p, s)).toList ++ queue)

/-- Redirects the references of one node.  The gates that had them are left out of the table. -/
def rewire (net : Network) (old : Nat) (new : Signal) : Except Fault Network := do
  let count := net.references old
  let net ← (net.parents old).foldlM evict net
  let net := net.mapReferences (redirected old new)
  let net := net.modifyNode new.node fun nd => { nd with fanout := nd.fanout + count }
  return net.modifyNode old fun nd => { nd with fanout := 0 }

/-- Redirects the references of one node and releases it.  The result lists the gates that became
redundant by it. -/
def redirect (net : Network) (old : Nat) (new : Signal) :
    Except Fault (Network × List (Nat × Signal)) := do
  let parents := net.parents old
  let net ← (← net.rewire old new).releaseGate old
  parents.foldlM rekeyParent (net, [])

/-- A network under substitution, and the replacements made so far, the latest first. -/
structure Cascade where
  net : Network
  replaced : List (Nat × Signal)

/-- Follows the replacements of a signal's node; `fuel` bounds their number. -/
def resolve (replaced : List (Nat × Signal)) : Nat → Signal → Except Fault Signal
  | 0, _ => .error .diverges
  | fuel + 1, s =>
    match replaced.lookup s.node with
    | none => .ok s
    | some next => resolve replaced fuel (next.complementIf s.complemented)

/-- One substitution of the cascade.  A gate whose replacement was released meanwhile keeps its own
key instead. -/
def cascadeStep (c : Cascade) : Nat × Signal → Except Fault (Cascade × List (Nat × Signal))
  | (old, new) => do
    if (← c.net.node old).dead then return (c, [])
    else
      let new ← resolve c.replaced (c.replaced.length + 1) new
      let lost ← if new.node = old then pure true else (·.dead) <$> c.net.node new.node
      if lost then
        let (net, found) ← c.net.rekey old
        return ({ c with net }, (found.map fun s => (old, s)).toList)
      else
        let (net, queue) ← c.net.redirect old new
        return (⟨net, (old, new) :: c.replaced⟩, queue)

/-- Marks a node as seen, its fanins being next. -/
def faninStep (net : Network) (seen : Visited) (n : Nat) : Except Fault (Visited × List Nat) := do
  if n ∈ seen then return (seen, [])
  else return (seen.push n, (← net.fanins n).map (·.node))

/-- Whether `target` is in the transitive fanin of `root`. -/
def dependsOn (net : Network) (root target : Nat) : Except Fault Bool := do
  let seen ← Worklist.drain net.faninStep (net.numSlots + 1) .empty [root]
  return target ∈ seen

/-- Refuses a substitution of nodes that do not exist, are the same, constant or dead. -/
def checkSubstitution (net : Network) (old : Nat) (new : Signal) : Except NetworkError Unit := do
  net.checkNode old
  net.checkNode new.node
  if old = new.node then throw (.selfSubstitution old)
  if net.isConstant old then throw (.notAGate old)
  net.checkLive old
  net.checkLive new.node

def checkFanoutCounts (net : Network) : Except Fault Unit :=
  let counts := net.referenceCounts
  (List.range net.size).forM fun n => do
    let nd ← net.node n
    let counted := counts.getD n 0
    if nd.fanout ≠ counted then throw (.staleFanoutCount n nd.fanout counted)

/-- Each step of a cascade releases a gate or drops an item that an earlier step queued for one of
that gate's parents, which bounds the number of steps. -/
def cascadeBound (net : Network) : Nat := (net.size + 2) * (net.size + 2)

def substituted (net : Network) (old : Nat) (new : Signal) : Except Fault Network := do
  if ← net.dependsOn new.node old then throw (.createsCycle old new)
  let c ← Worklist.drain cascadeStep net.cascadeBound ⟨net, []⟩ [(old, new)]
  c.net.checkFanoutCounts
  return c.net

/-- Redirects every reference to `old` onto `new` and releases `old`. -/
def substitute (old : Nat) (new : Signal) : Edit Unit := do
  let net ← get
  net.checkSubstitution old new
  set (← net.substituted old new)

end LogicNet.Network
