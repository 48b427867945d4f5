import LogicNet.TruthTable

/-! # Clauses

Literals, clauses, and the clauses that tie the output literal of a gate to its input literals.
-/

namespace LogicNet.Sat

structure Literal where
  var : Nat
  negated : Bool
deriving Repr, DecidableEq, Inhabited

namespace Literal

def positive (v : Nat) : Literal := ⟨v, false⟩

def negate (l : Literal) : Literal := { l with negated := !l.negated }

def negateIf (l : Literal) (flip : Bool) : Literal := { l with negated := l.negated ^^ flip }

/-- Value of the literal under an assignment of the variables. -/
def eval (l : Literal) (assignment : Nat → Bool) : Bool := assignment l.var ^^ l.negated

@[simp] theorem eval_negate (l : Literal) (a : Nat → Bool) : l.negate.eval a = !l.eval a := by
  simp [eval, negate]

@[simp] theorem eval_negateIf (l : Literal) (flip : Bool) (a : Nat → Bool) :
    (l.negateIf flip).eval a = (l.eval a ^^ flip) := by
  simp [eval, negateIf]

end Literal

abbrev Clause := List Literal

def satisfies (assignment : Nat → Bool) (clauses : List Clause) : Bool :=
  clauses.all fun c => c.any (·.eval assignment)

@[simp] theorem satisfies_nil (a : Nat → Bool) : satisfies a [] = true := rfl

@[simp] theorem satisfies_cons (a : Nat → Bool) (c : Clause) (clauses : List Clause) :
    satisfies a (c :: clauses) = (c.any (·.eval a) && satisfies a clauses) := rfl

@[simp] theorem satisfies_append (a : Nat → Bool) (clauses clauses' : List Clause) :
    satisfies a (clauses ++ clauses') = (satisfies a clauses && satisfies a clauses') :=
  List.all_append

/-- The output is true when both inputs are, and only then. -/
def andClauses (out a b : Literal) : List Clause :=
  [[a.negate, b.negate, out], [a, out.negate], [b, out.negate]]

/-- One clause for each row of a two-input parity. -/
def xorClauses (out a b : Literal) : List Clause :=
  [[a.negate, b.negate, out.negate], [a, b, out.negate], [a, b.negate, out], [a.negate, b, out]]

/-- One clause for each row of a three-input parity. -/
def xor3Clauses (out a b c : Literal) : List Clause :=
  (List.range 8).map fun row =>
    let odd := TruthTable.weight 3 row % 2 == 1
    [a.negateIf (row.testBit 0), b.negateIf (row.testBit 1), c.negateIf (row.testBit 2),
      out.negateIf !odd]

/-- Any two true inputs make the output true, any two false inputs make it false. -/
def majClauses (out a b c : Literal) : List Clause :=
  [(a, b), (a, c), (b, c)].flatMap fun (x, y) =>
    [[x.negate, y.negate, out], [x, y, out.negate]]

/-- The clause of one row: inputs that take the row give the output its value. -/
def rowClause (out : Literal) (inputs : List Literal) (t : TruthTable) (row : Nat) : Clause :=
  inputs.mapIdx (fun j l => l.negateIf (row.testBit j)) ++ [out.negateIf !t.bit row]

/-- One clause for each row of a table over as many inputs as it has variables. -/
def tableClauses (out : Literal) (inputs : List Literal) (t : TruthTable) :
    Except Fault (List Clause) :=
  if inputs.length = t.numVars then .ok ((List.range t.numRows).map (rowClause out inputs t))
  else .error (.wrongArity t.numVars inputs.length)

end LogicNet.Sat
