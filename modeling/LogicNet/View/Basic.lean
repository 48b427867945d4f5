import LogicNet.Inverters
import LogicNet.Recipe

/-! # Views

A workspace holds networks and fanout indexes.  A view names one of the networks and says which
indexes and don't-care functions go with it, so two views of one network see each other's changes.
A fanout view keeps its index up to date for the changes made through it, and only for those.
-/

namespace LogicNet

structure Workspace where
  networks : Array Network
  indexes : Array FanoutIndex
deriving Repr, DecidableEq

/-- A network together with the indexes and don't-care functions that go with it. -/
inductive View where
  | network (id : Nat)
  | fanout (base : View) (index : Nat)
  /-- The assignments on which the one output of `dontCares` is true do not matter. -/
  | dontCare (base dontCares : View)
deriving Repr, DecidableEq

/-- A change of a workspace that gives a result or fails. -/
abbrev Session := EStateM Failure Workspace

namespace Workspace

def empty : Workspace := ⟨#[], #[]⟩

def network (w : Workspace) (id : Nat) : Except Fault Network :=
  match w.networks[id]? with
  | some net => .ok net
  | none => .error (.indexOutOfRange id w.networks.size)

def index (w : Workspace) (id : Nat) : Except Fault FanoutIndex :=
  match w.indexes[id]? with
  | some index => .ok index
  | none => .error (.indexOutOfRange id w.indexes.size)

/-- Adds a network; the result is a view of it. -/
def addNetwork (net : Network) : Session View := do
  let w ← get
  set { w with networks := w.networks.push net }
  return .network w.networks.size

end Workspace

namespace View

def networkId : View → Nat
  | network id => id
  | fanout base _ => base.networkId
  | dontCare base _ => base.networkId

/-- The indexes that go with the network, the innermost first. -/
def indexIds : View → List Nat
  | network _ => []
  | fanout base index => base.indexIds ++ [index]
  | dontCare base _ => base.indexIds

def current (v : View) : Session Network := do (← get).network v.networkId

def currentIndex (v : View) : Session FanoutIndex := do
  match v.indexIds.getLast? with
  | some id => (← get).index id
  | none => throw (.fault .notSupported)

/-- Changes the network.  What an edit did before it failed stays. -/
def edit {α : Type} (v : View) (e : Edit α) : Session α := do
  let w ← get
  let net ← w.network v.networkId
  match e.run net with
  | .ok a net =>
    set { w with networks := w.networks.setIfInBounds v.networkId net }
    return a
  | .error failure net => do
    set { w with networks := w.networks.setIfInBounds v.networkId net }
    throw failure

def updateIndexes (v : View) (f : FanoutIndex → Network → FanoutIndex) : Session Unit := do
  let net ← v.current
  modify fun w => { w with
    indexes := v.indexIds.foldl (fun indexes id => indexes.modify id (f · net)) w.indexes }

/-- Makes signals.  The indexes take up what is new in the network. -/
def create {α : Type} (v : View) (e : Edit α) : Session α := do
  let a ← v.edit e
  v.updateIndexes FanoutIndex.catchUp
  return a

/-- Makes the indexes describe the network as it is. -/
def refresh (v : View) : Session Unit := v.updateIndexes fun _ net => .ofNetwork net

def substitute (v : View) (old : Nat) (new : Signal) : Session Unit := do
  v.edit (Network.substitute old new)
  v.refresh

/-- Makes the gate `n` of another view over given fanins. -/
def cloneGate (v source : View) (n : Nat) (fanins : List Signal) : Session Signal := do
  v.create (Network.cloneGate (← source.current) n fanins)

def optimizeInverters (v : View) (options : InverterOptions) : Session InverterStats := do
  v.edit (Network.optimizeInverters (← v.currentIndex) options)

/-- An empty recipe makes no signal, so the indexes stay as they are. -/
def buildRecipe (v : View) (r : Recipe) : Session Unit :=
  if r.isEmpty then pure () else v.create r.build

/-- The network that a don't-care view takes its excluded assignments from. -/
def currentDontCares : View → Session Network
  | dontCare _ dontCares => dontCares.current
  | _ => throw (.fault .notSupported)

end View

end LogicNet
