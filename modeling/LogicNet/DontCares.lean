import LogicNet.Sat.Encoding
import LogicNet.Simulation.Run

/-! # Don't-care functions

A network with one output describes the assignments of its inputs that do not matter: those on which
the output is true.
-/

namespace LogicNet.Network

open LogicNet.Sat

/-- Whether an assignment lies in the region where the one output of a network is true. -/
def excludes (dontCares : Network) (assignment : List Bool) : Except Failure Bool := do
  if assignment.length ≠ dontCares.numInputs then
    throw (.refused (.inputCountMismatch dontCares.numInputs assignment.length))
  match ← dontCares.simulate (.ofPattern assignment) with
  | out :: _ => return out
  | [] => throw (.fault (.indexOutOfRange 0 0))

/-- Rules out the assignments on which the one output of a network is true. -/
def encodeExclusion {σ : Type} [ClauseSink σ] (dontCares : Network) (constantFalse : Literal)
    (inputs : List Literal) : Encode σ Unit := do
  match ← encodeWith dontCares constantFalse inputs with
  | out :: _ => addClause [out.negate]
  | [] => throw (.fault (.indexOutOfRange 0 0))

/-- Rules out the same assignments over variables that are allocated already: variable 0 is false in
every model, and variable `i + 1` is primary input `i`. -/
def encodeOwnExclusion {σ : Type} [ClauseSink σ] (dontCares : Network) : Encode σ Unit := do
  let constantFalse := Literal.positive 0
  addClause [constantFalse.negate]
  let inputs := (List.range dontCares.numInputs).map fun i => Literal.positive (i + 1)
  encodeExclusion dontCares constantFalse inputs

end LogicNet.Network
