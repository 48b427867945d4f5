import LogicNet.Network.Build
import LogicNet.Network.Order

/-! # Copying networks

A network is made again in another one of its family, gate by gate in topological order.  Every node that
has been visited has an image there, which is a signal of either polarity.
-/

namespace LogicNet.Network

/-- Nodes of a network with their signals in another one. -/
abbrev Images := List (Nat × Signal)

/-- The constants and inputs of the two networks belong together from the start. -/
def firstImages (source target : Network) : Images :=
  source.family.constants.mapIdx (fun n value => (n, target.constant value))
    ++ source.inputs.zip (target.inputs.map Signal.ofNode)

/-- The image of the node of a signal, complemented where the signal is. -/
def imageOf (images : Images) (s : Signal) : Edit Signal :=
  match images.lookup s.node with
  | some t => if s.complemented then createNot t else return t
  | none => throw (.fault (.nodeOutOfRange s.node images.length))

def copyNode (source : Network) (images : Images) (n : Nat) : Edit Images := do
  if (← source.node n).isGate then
    let fanins ← (← source.fanins n).mapM (imageOf images)
    return (n, ← cloneGate source n fanins) :: images
  else return images

/-- Makes the gates that the outputs of a network depend on, and the outputs. -/
def copy (source : Network) : Edit Unit := do
  let order ← source.topologicalOrder
  let images ← order.foldlM (copyNode source) (source.firstImages (← get))
  source.outputs.forM fun s => do
    let _ ← createOutput (← imageOf images s)

end LogicNet.Network
