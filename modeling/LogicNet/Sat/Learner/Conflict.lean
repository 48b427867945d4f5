import LogicNet.Sat.Learner.Trail

/-! # Learning from conflicts

A clause that became false and the clauses that forced its literals entail a clause that forces a
literal as soon as the choices that it depends on are made.  That one is worth learning.
-/

namespace LogicNet.Sat

/-- What is found out about a conflict while the trail is read from its end. -/
structure Analysis (clauses : List Clause) where
  takesPart : Array Bool
  /-- Number of variables of the current level that take part and were not read yet. -/
  unread : Nat
  /-- The literals to learn that were read, in the order of the trail. -/
  codes : List Nat
  /-- The reasons of the other literals that were read and take part, in the order of the trail. -/
  chain : List (Consequence clauses)
  /-- The variables of the current level that were read and are not to be learned. -/
  passed : List Nat

namespace Trail

variable {clauses : List Clause}

/-- Whether a literal was assigned after the last choice. -/
def isCurrent (t : Trail clauses) (k : Nat) : Bool := 0 < t.level && t.levelOf k == t.level

def involve (t : Trail clauses) (x : Analysis clauses) (k : Nat) : Analysis clauses :=
  if x.takesPart.getD (k / 2) false then x
  else
    { x with
      takesPart := x.takesPart.setIfInBounds (k / 2) true
      unread := if t.isCurrent k then x.unread + 1 else x.unread }

/-- Reads a literal of the trail.  Its negation is to be learned if it takes part, unless its reason
can stand for it: where other variables of the current level are still to be read, which then take
part too, and on lower levels where the reason adds no variable. -/
def read (t : Trail clauses) (k : Nat) (x : Analysis clauses) : Analysis clauses :=
  if !x.takesPart.getD (k / 2) false then x
  else
    match t.reason? k with
    | none => { x with codes := Literal.negateCode k :: x.codes }
    | some reason =>
      if t.isCurrent k && 1 < x.unread then
        reason.codes.foldl t.involve { x with
          unread := x.unread - 1
          chain := reason :: x.chain
          passed := k / 2 :: x.passed }
      else if !t.isCurrent k && reason.codes.all fun j => x.takesPart.getD (j / 2) false then
        { x with chain := reason :: x.chain }
      else { x with codes := Literal.negateCode k :: x.codes }

/-- Variables that had a part in a conflict, and the clause to learn from the false clause.  Its one
literal of the current level comes first, and those that became false earlier come later.  Without
a choice it has no literal. -/
def explain (t : Trail clauses) (c : Consequence clauses) :
    List Nat × Option (Consequence clauses) :=
  let n := t.numVars
  let x := c.codes.foldl t.involve ⟨.replicate n false, 0, [], [], []⟩
  let x := t.literals.foldr t.read x
  (x.passed, Consequence.ofChain? (2 * n) x.codes.reverse (x.chain ++ [c]))

end Trail

end LogicNet.Sat
