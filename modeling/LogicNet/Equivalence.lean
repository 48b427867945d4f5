import LogicNet.DontCares
import LogicNet.Sat.Solve

/-! # Equivalence checking

Two networks are encoded over the same primary inputs.  They are equivalent when no assignment makes
some pair of outputs differ.
-/

namespace LogicNet

open LogicNet.Sat

inductive Verdict where
  | proved
  /-- An assignment of the primary inputs under which some output differs. -/
  | disproved (counterexample : List Bool)
deriving Repr, DecidableEq

namespace Network

/-- Refuses two networks with different numbers of inputs or outputs. -/
def checkInterfaces (a b : Network) : Except NetworkError Unit := do
  if a.numInputs ≠ b.numInputs then throw (.inputCountMismatch a.numInputs b.numInputs)
  if a.numOutputs ≠ b.numOutputs then throw (.outputCountMismatch a.numOutputs b.numOutputs)

/-- A fresh literal that is true exactly where the literals of a pair differ. -/
def encodePair {σ : Type} [ClauseSink σ] (pair : Literal × Literal) : Encode σ Literal := do
  let miter := Literal.positive (← newVariable)
  addClauses (xorClauses miter pair.1 pair.2)
  return miter

/-- A fresh literal that is true only if some pair of outputs differs. -/
def encodeDifference {σ : Type} [ClauseSink σ] (pairs : List (Literal × Literal)) :
    Encode σ Literal := do
  let diff := Literal.positive (← newVariable)
  let miters ← pairs.mapM encodePair
  addClause (diff.negate :: miters)
  return diff

/-- Encodes two networks over the same literals of the primary inputs, and rules out the assignments that
do not matter.  The results are the pairs of output literals. -/
def encodeOutputs {σ : Type} [ClauseSink σ] (a b : Network) (dontCares : Option Network)
    (constantFalse : Literal) (inputs : List Literal) : Encode σ (List (Literal × Literal)) := do
  let outputsA ← encodeWith a constantFalse inputs
  let outputsB ← encodeWith b constantFalse inputs
  dontCares.forM fun d => encodeExclusion d constantFalse inputs
  return outputsA.zip outputsB

/-- Clauses over the literals of the primary inputs and one more literal.  Those of their models in which
that literal is true are the assignments that tell two networks apart. -/
def encodeMiter {σ : Type} [ClauseSink σ] (a b : Network) (dontCares : Option Network) :
    Encode σ (List Literal × Literal) := do
  let constantFalse ← newFalse
  let inputs ← newLiterals a.numInputs
  let pairs ← encodeOutputs a b dontCares constantFalse inputs
  return (inputs, ← encodeDifference pairs)

/-- Asks a solver for an assignment that tells two networks apart outside the don't-care region. -/
def solveMiter (solver : Solver) (a b : Network) (dontCares : Option Network) :
    Except Failure Verdict :=
  match (encodeMiter a b dontCares).run ({} : Recorder) with
  | .error e _ => .error e
  | .ok (inputs, diff) r =>
    match solver r.clauses.toList [diff] with
    | none => .ok .proved
    | some model => .ok (.disproved (inputs.map (·.eval model)))

def proveEquivalenceBy (solver : Solver) (a b : Network) : Except Failure Verdict := do
  checkInterfaces a b
  solveMiter solver a b none

/-- Whether two networks have the same outputs on every assignment on which the one output of
`dontCares` is false. -/
def proveEquivalenceModuloBy (solver : Solver) (a b dontCares : Network) : Except Failure Verdict := do
  checkInterfaces a b
  solveMiter solver a b (some dontCares)

def proveEquivalence : Network → Network → Except Failure Verdict := proveEquivalenceBy searchSolver

def proveEquivalenceModulo : Network → Network → Network → Except Failure Verdict :=
  proveEquivalenceModuloBy searchSolver

/-- Whether two networks have different outputs on an assignment that is not excluded. -/
def distinguishes (a b : Network) (dontCares : Option Network) (assignment : List Bool) :
    Except Failure Bool := do
  let outputsA ← a.simulate (.ofPattern assignment)
  let outputsB ← b.simulate (.ofPattern assignment)
  if outputsA = outputsB then return false
  else
    match dontCares with
    | none => return true
    | some d => return !(← d.excludes assignment)

/-- The rows on which two networks have different outputs, but for those that are excluded. -/
def differingRows (a b : Network) (dontCares : Option Network) : Except Failure TruthTable := do
  let differences ← ((← a.outputTables).zip (← b.outputTables)).mapM fun (s, t) => s.xor t
  let rows ← differences.foldlM (fun s t => s.or t) (TruthTable.const a.numInputs false)
  match dontCares with
  | none => return rows
  | some d =>
    match ← d.outputTables with
    | out :: _ => rows.and out.complement
    | [] => throw (.fault (.indexOutOfRange 0 0))

/-- Whether no second assignment tells the networks apart. -/
def isOnlyCounterexample (a b : Network) (dontCares : Option Network) (assignment : List Bool) :
    Except Failure Bool := do
  let found ← differingRows a b dontCares
  return found.rows == BitVec.twoPow _ (TruthTable.rowOf assignment)

/-- Whether some assignment of the primary inputs gives the outputs the wanted values; outputs
without a wanted value are free. -/
def canProduce (net : Network) (wanted : List (Option Bool)) : Except Failure Bool :=
  let encoded : Encode Recorder (List Literal) := do
    let inputs ← newLiterals net.numInputs
    encode net inputs
  match encoded.run {} with
  | .error e _ => .error e
  | .ok outputs r =>
    let units := (outputs.zip wanted).filterMap fun (l, value) =>
      value.map fun v => [l.negateIf !v]
    .ok (isSatisfiable (r.clauses.toList ++ units))

end Network

end LogicNet
