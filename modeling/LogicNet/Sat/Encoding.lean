import LogicNet.Network.Function
import LogicNet.Network.Order
import LogicNet.Sat.Sink

/-! # Encoding networks as clauses

Every gate in the cones of the outputs gets a variable, and clauses that tie it to the literals of
the fanins.  Constants and primary inputs have literals of their own.
-/

namespace LogicNet.Sat

variable {σ : Type} [ClauseSink σ]

/-- The clauses of a gate; kinds without clauses of their own use the table. -/
def gateClauses (kind : GateKind) (t : TruthTable) (out : Literal) (inputs : List Literal) :
    Except Fault (List Clause) :=
  match kind, inputs with
  | .and, [a, b] => .ok (andClauses out a b)
  | .xor, [a, b] => .ok (xorClauses out a b)
  | .xor3, [a, b, c] => .ok (xor3Clauses out a b c)
  | .maj, [a, b, c] => .ok (majClauses out a b c)
  | _, inputs => tableClauses out inputs t

def literalOf (literals : Array (Option Literal)) (s : Signal) : Except Failure Literal :=
  match literals.getD s.node none with
  | some l => .ok (l.negateIf s.complemented)
  | none => .error (.refused (.nodeOutOfRange s.node literals.size))

/-- Gives the next node in topological order its literal. -/
def encodeNode (net : Network) (constantFalse : Literal) (inputs : List Literal)
    (literals : Array (Option Literal)) (n : Nat) : Encode σ (Array (Option Literal)) := do
  let l ←
    if net.isConstant n then pure (constantFalse.negateIf (net.constantValue n))
    else
      match ← net.inputIndex? n with
      | some i =>
        match inputs[i]? with
        | some l => pure l
        | none => throw (.fault (.indexOutOfRange i inputs.length))
      | none => do
        let fanins ← (← net.fanins n).mapM fun s => literalOf literals s
        let out := Literal.positive (← newVariable)
        addClauses (← gateClauses (← net.gateKind n) (← net.nodeFunction n) out fanins)
        pure out
  return literals.setIfInBounds n (some l)

/-- Encodes the cones of the outputs over given literals, one per primary input, and a literal
that is false in every model.  The results are the literals of the outputs. -/
def encodeWith (net : Network) (constantFalse : Literal) (inputs : List Literal) :
    Encode σ (List Literal) := do
  if inputs.length ≠ net.numInputs then
    throw (.refused (.inputCountMismatch net.numInputs inputs.length))
  let literals ← (← net.topologicalOrder).foldlM (encodeNode net constantFalse inputs)
    (Array.replicate net.size none)
  net.outputs.mapM fun s => literalOf literals s

/-- A fresh literal that is false in every model. -/
def newFalse : Encode σ Literal := do
  let l := Literal.positive (← newVariable)
  addClause [l.negate]
  return l

/-- Encodes the cones of the outputs over given literals of the primary inputs. -/
def encode (net : Network) (inputs : List Literal) : Encode σ (List Literal) := do
  encodeWith net (← newFalse) inputs

end LogicNet.Sat
