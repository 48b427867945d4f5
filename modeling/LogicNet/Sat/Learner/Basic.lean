import LogicNet.Sat.Learner.Conflict
import LogicNet.Sat.Learner.Watches

/-! # The state of a search

What a search for a model knows and has assigned, and what it makes of the clauses that it is given
and of those that it learns.
-/

namespace LogicNet.Sat

structure Learner (clauses : List Clause) where
  /-- Clauses of at least two literals, the given ones first and the learned ones last. -/
  watches : Watches clauses
  numGiven : Nat
  trail : Trail clauses
  /-- Length of the part of the trail whose watchers were visited. -/
  visited : Nat
  /-- For each variable how often it took part in conflicts, late ones counting more. -/
  scores : Array Nat
  /-- What the next conflict adds to a score. -/
  reward : Nat
  conflicts : Nat
  restarts : Nat
  /-- Number of learned clauses for which there is room. -/
  room : Nat

namespace Learner

variable {clauses : List Clause}

/-- Nothing known or assigned yet, for the variables below `n`. -/
def empty (n : Nat) : Learner clauses where
  watches := .empty n
  numGiven := 0
  trail := .empty n
  visited := 0
  scores := .replicate n 0
  reward := 2 ^ (10 : Nat)
  conflicts := 0
  restarts := 0
  room := 2000

/-- Adds a given clause.  The result comes with the clause if it is false. -/
def add (s : Learner clauses) (c : Consequence clauses) :
    Learner clauses × Option (Consequence clauses) :=
  match c.codes with
  | [] => (s, some c)
  | [k] =>
    if s.trail.holds k then (s, none)
    else if s.trail.fails k then (s, some c)
    else ({ s with trail := s.trail.assign k (some c) }, none)
  | j :: k :: _ =>
    let watches := s.watches.add { clause := c, first := j, second := k }
    ({ s with watches, numGiven := s.numGiven + 1 }, none)

/-- Adds given clauses up to the first that is false. -/
def addAll : List (Consequence clauses) → Learner clauses →
    Learner clauses × Option (Consequence clauses)
  | [], s => (s, none)
  | c :: rest, s =>
    match s.add c with
    | (s, none) => addAll rest s
    | (s, some c) => (s, some c)

/-- Assigns what the trail forces.  The result comes with a clause that is false then, if there is
one. -/
def propagate (s : Learner clauses) : Learner clauses × Option (Consequence clauses) :=
  match s.watches.propagate (s.trail.numVars + 1) s.visited s.trail with
  | ⟨watches, trail, conflict?⟩ =>
    ({ s with watches, trail, visited := trail.literals.size }, conflict?)

/-- Takes back all but the first `level` choices, and what they forced. -/
def undo (s : Learner clauses) (level : Nat) : Learner clauses :=
  let trail := s.trail.undo level
  { s with trail, visited := trail.literals.size }

def bump (s : Learner clauses) (vars : List Nat) : Learner clauses :=
  let reward := s.reward
  { s with scores := vars.foldl (fun scores v => scores.modify v (· + reward)) s.scores }

/-- Above this reward all scores are scaled down. -/
def maxReward : Nat := 2 ^ (40 : Nat)

/-- Lets the next conflict count a little more than those before. -/
def raiseReward (s : Learner clauses) : Learner clauses :=
  if s.reward ≤ maxReward then { s with reward := s.reward + s.reward / 20 }
  else
    { s with
      reward := s.reward / 2 ^ (30 : Nat)
      scores := s.scores.map (· / 2 ^ (30 : Nat)) }

/-- Goes back to where all literals of a clause but the first are false, of which the second became
so last, and makes the first one true. -/
def learn (s : Learner clauses) (c : Consequence clauses) : Learner clauses :=
  match c.codes with
  | [] => s
  | [k] =>
    let s := s.undo 0
    { s with trail := s.trail.assign k (some c) }
  | k :: j :: _ =>
    let s := s.undo (s.trail.levelOf j)
    let watches := s.watches.add { clause := c, first := k, second := j }
    { s with watches, trail := s.trail.assign k (some c) }

/-- Forgets the older half of the learned clauses, but keeps short ones. -/
def forget (s : Learner clauses) : Learner clauses :=
  let middle := (s.numGiven + s.watches.known.size) / 2
  let kept := s.watches.known.toList.zipIdx.filter fun (c, i) =>
    i < s.numGiven || middle ≤ i || c.clause.codes.length ≤ 3
  { s with watches := kept.foldl (fun w (c, _) => w.add c) (.empty s.trail.numVars) }

end Learner

end LogicNet.Sat
