import LogicNet.Sat.Learner.Run
import LogicNet.Sat.Resolution
import LogicNet.Sat.Search
import LogicNet.Sat.Sink

/-! # Satisfiability

Clauses are resolved with their neighbours and decided by a search with learning, and exhaustively
where that one gives up.  `satisfies_of_solve` says that an answer is a model, and `solve_isSome`
that there is an answer whenever there is a model.
-/

namespace LogicNet.Sat

/-- A model of the clauses, if there is any. -/
def solve (clauses : List Clause) : Option (Nat → Bool) :=
  match learn (resolveAll clauses) with
  | .model a _ => some a
  | .refuted _ => none
  | .undecided => exhaust clauses

/-- What solvers answer for clauses and assumed literals: a model of both, if they find that there is
one. -/
abbrev Solver := List Clause → List Literal → Option (Nat → Bool)

/-- Takes an assumed literal as one more clause. -/
def searchSolver : Solver := fun clauses assumed => solve (clauses ++ assumed.map ([·]))

def isSatisfiable (clauses : List Clause) : Bool := (solve clauses).isSome

def Formula.isSatisfiable (f : Formula) : Except Fault Bool := do
  return Sat.isSatisfiable (← f.checked).clauses.toList

theorem satisfies_of_solve {clauses : List Clause} {a : Nat → Bool}
    (h : solve clauses = some a) : satisfies a clauses = true := by
  unfold solve at h
  split at h
  next b hb _ =>
    obtain rfl := Option.some.inj h
    rwa [satisfies_resolveAll] at hb
  next => contradiction
  next => exact satisfies_of_exhaust h

theorem solve_isSome {clauses : List Clause} {a : Nat → Bool} (ha : satisfies a clauses = true) :
    (solve clauses).isSome := by
  unfold solve
  split
  next => rfl
  next hrefuted _ => simp [← satisfies_resolveAll a clauses, hrefuted a] at ha
  next => exact exhaust_isSome ha

end LogicNet.Sat
