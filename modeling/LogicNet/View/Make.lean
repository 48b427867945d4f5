import LogicNet.Cube.Reader
import LogicNet.View.Basic

/-! # Making views

A view is made over a new network, over copies of networks, or by adding a layer to another view.
-/

namespace LogicNet.View

def ofFamily (family : Family) : Session View := Workspace.addNetwork (.empty family)

def addFanout (base : View) : Session View := do
  let net ← base.current
  let w ← get
  set { w with indexes := w.indexes.push (.ofNetwork net) }
  return .fanout base w.indexes.size

/-- A view of the same shape over copies of the networks, with indexes of its own. -/
def deepClone : View → Session View
  | network id => do Workspace.addNetwork (← (← get).network id)
  | fanout base _ => do (← base.deepClone).addFanout
  | dontCare base dontCares => return .dontCare (← base.deepClone) (← dontCares.deepClone)

/-- A view of the shape of a base network or fanout view, over a new empty network. -/
def emptyLike : View → Session View
  | network id => do ofFamily (← (← get).network id).family
  | fanout base _ => do (← base.emptyLike).addFanout
  | dontCare base _ => base.emptyLike

/-- Attaches a don't-care function, a network over the same inputs with one output. -/
def withDontCares (base dontCares : View) : Session View := do
  let net ← base.current
  let d ← dontCares.current
  if d.numInputs ≠ net.numInputs then
    throw (.refused (.inputCountMismatch net.numInputs d.numInputs))
  if d.numOutputs ≠ 1 then throw (.refused (.outputCountMismatch 1 d.numOutputs))
  return .dontCare base dontCares

/-- Attaches the complement of a cube list.  The whole list is read before a node is made. -/
def readDontCares (base : View) (bytes : List UInt8) : Session View := do
  let net ← base.current
  let cubes ← Cube.readList net.numInputs bytes
  let dontCares ← base.emptyLike
  let _ ← dontCares.create (Network.createCoverComplement net.numInputs cubes)
  base.withDontCares dontCares

/-- Attaches the complement of the cube list in a file, if the file could be read. -/
def loadDontCares (base : View) (file : Except InputFailure (List UInt8)) : Session View := do
  match file with
  | .error cause => throw (.refused (.input cause))
  | .ok bytes => base.readDontCares bytes

end LogicNet.View
