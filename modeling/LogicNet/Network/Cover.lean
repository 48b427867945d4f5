import LogicNet.Network.Build

/-! # Networks from cubes

A cover is a list of cubes; it holds on the assignments that some cube covers.  The network built
for a cover has the complement of the cover as its output.
-/

namespace LogicNet.Network

/-- Extends a conjunction by the literal of one input. -/
def createConjunct (term : Option Signal) : Signal × Option Bool → Edit (Option Signal)
  | (_, none) => return term
  | (input, some positive) => do
    let l ← if positive then pure input else createNot input
    match term with
    | none => return some l
    | some t => return some (← createAnd t l)

/-- The conjunction of a cube's literals.  A cube without literals covers every assignment. -/
def createTerm (inputs : List Signal) (cube : Cube) : Edit Signal := do
  match ← (inputs.zip cube).foldlM createConjunct none with
  | some term => return term
  | none => return (← get).constant true

def createInputs (n : Nat) : Edit (List Signal) := (List.range n).mapM fun _ => createInput

/-- Makes inputs, and one output that is true where no cube covers them. -/
def createCoverComplement (numInputs : Nat) (cubes : List Cube) : Edit Signal := do
  match cubes with
  | [] => throw (.refused .emptyCover)
  | cube :: rest =>
    let inputs ← createInputs numInputs
    let first ← createTerm inputs cube
    let cover ← rest.foldlM (fun cover cube => do createOr cover (← createTerm inputs cube)) first
    let output ← createNot cover
    let _ ← createOutput output
    return output

end LogicNet.Network
