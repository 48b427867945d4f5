import LogicNet.Sat.Consequence

/-! # The trail

A search for a model makes one literal after another true, some by choice and some because a clause
forces them.  The trail tells which literals are true, in which order they became so and why.
Literals are given by their codes.
-/

namespace LogicNet.Sat

structure Trail (clauses : List Clause) where
  /-- The true literals in the order of their assignment. -/
  literals : Array Nat
  isTrue : Array Bool
  /-- For each assigned variable the number of choices made before. -/
  levels : Array Nat
  /-- For each assigned variable the clause that forced its value, if it was not a choice. -/
  reasons : Array (Option (Consequence clauses))
  /-- For each variable the literal of it that was true last. -/
  phases : Array Nat
  level : Nat

namespace Trail

variable {clauses : List Clause}

/-- Nothing assigned yet, for the variables below `n`. -/
def empty (n : Nat) : Trail clauses where
  literals := #[]
  isTrue := .replicate (2 * n) false
  levels := .replicate n 0
  reasons := .replicate n none
  phases := (Array.range n).map fun v => 2 * v + 1
  level := 0

def numVars (t : Trail clauses) : Nat := t.levels.size

def holds (t : Trail clauses) (k : Nat) : Bool := t.isTrue.getD k false

def fails (t : Trail clauses) (k : Nat) : Bool := t.holds (Literal.negateCode k)

def levelOf (t : Trail clauses) (k : Nat) : Nat := t.levels.getD (k / 2) 0

def reason? (t : Trail clauses) (k : Nat) : Option (Consequence clauses) :=
  t.reasons.getD (k / 2) none

def assign (t : Trail clauses) (k : Nat) (reason : Option (Consequence clauses)) : Trail clauses :=
  { t with
    literals := t.literals.push k
    isTrue := t.isTrue.setIfInBounds k true
    levels := t.levels.setIfInBounds (k / 2) t.level
    reasons := t.reasons.setIfInBounds (k / 2) reason
    phases := t.phases.setIfInBounds (k / 2) k }

def choose (t : Trail clauses) (k : Nat) : Trail clauses :=
  { t with level := t.level + 1 }.assign k none

/-- Makes a literal true that a clause forces.  Before the first choice its other literals are
refuted by clauses of one literal, and the literal is a consequence on its own. -/
def force (t : Trail clauses) (k : Nat) (c : Consequence clauses) : Trail clauses :=
  if t.level = 0 then
    t.assign k (some (c.codes.foldl (fun c m => (t.reason? m).elim c c.simplify) c))
  else t.assign k (some c)

/-- Takes back literals from the end of the trail that were assigned at higher levels; there are at
most `fuel` of them. -/
def undoLast (level : Nat) : Nat → Trail clauses → Trail clauses
  | 0, t => t
  | fuel + 1, t =>
    match t.literals.back? with
    | none => t
    | some k =>
      if t.levelOf k ≤ level then t
      else
        undoLast level fuel { t with
          literals := t.literals.pop
          isTrue := t.isTrue.setIfInBounds k false }

/-- Takes back all but the first `level` choices, and what they forced. -/
def undo (t : Trail clauses) (level : Nat) : Trail clauses :=
  undoLast level t.literals.size { t with level }

end Trail

end LogicNet.Sat
