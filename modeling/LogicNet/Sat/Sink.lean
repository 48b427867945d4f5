import LogicNet.Error
import LogicNet.Sat.Clause

/-! # Clause sinks

Encoding a network needs two operations: a fresh variable, and one more clause.
-/

namespace LogicNet.Sat

class ClauseSink (σ : Type) where
  newVariable : σ → Nat × σ
  addClause : σ → Clause → σ

abbrev Encode (σ : Type) := EStateM Failure σ

section

variable {σ : Type} [ClauseSink σ]

def newVariable : Encode σ Nat := modifyGet ClauseSink.newVariable

def addClause (c : Clause) : Encode σ Unit := modify (ClauseSink.addClause · c)

def addClauses (clauses : List Clause) : Encode σ Unit :=
  modify fun sink => clauses.foldl ClauseSink.addClause sink

/-- Allocates a number of variables; the results are their positive literals. -/
def newLiterals (n : Nat) : Encode σ (List Literal) :=
  (List.range n).mapM fun _ => return .positive (← newVariable)

end

/-- The answer of an encoding that starts with a given sink, and the sink after it. -/
def Encode.runFrom {σ α : Type} (e : Encode σ α) (sink : σ) : Except Failure (α × σ) :=
  match e sink with
  | .ok a sink => .ok (a, sink)
  | .error f _ => .error f

/-- A sink that numbers the variables it allocates. -/
structure Recorder where
  numVars : Nat := 0
  clauses : Array Clause := #[]
deriving Repr, DecidableEq

instance : ClauseSink Recorder where
  newVariable r := (r.numVars, { r with numVars := r.numVars + 1 })
  addClause r c := { r with clauses := r.clauses.push c }

namespace Recorder

/-- The number of allocated variables fits in 32 bits. -/
def maxVars : Nat := 2 ^ (32 : Nat) - 1

def checked (r : Recorder) : Except Fault Recorder :=
  if r.numVars ≤ maxVars then .ok r else .error (.tooManyVariables r.numVars maxVars)

end Recorder

/-- A sink whose fresh variables are past every variable allocated or mentioned before. -/
structure Formula where
  numVars : Nat := 0
  clauses : Array Clause := #[]
deriving Repr, DecidableEq

instance : ClauseSink Formula where
  newVariable f := (f.numVars, { f with numVars := f.numVars + 1 })
  addClause f c :=
    { numVars := c.foldl (fun n l => max n (l.var + 1)) f.numVars, clauses := f.clauses.push c }

namespace Formula

/-- A literal of a formula is a 32-bit word, of which three bits are spare and one is the sign. -/
def maxVars : Nat := 2 ^ (28 : Nat)

def checked (f : Formula) : Except Fault Formula :=
  if f.numVars ≤ maxVars then .ok f else .error (.tooManyVariables f.numVars maxVars)

/-- The formula of given clauses, with `numVars` variables allocated beforehand. -/
def ofClauses (numVars : Nat) (clauses : List Clause) : Formula :=
  clauses.foldl ClauseSink.addClause { numVars }

end Formula

end LogicNet.Sat
