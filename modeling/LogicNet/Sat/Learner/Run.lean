import LogicNet.Sat.Learner.Basic
import LogicNet.Sat.Numbering

/-! # Search with learning

Choices alternate with what they force.  Each conflict adds a learned clause, and from time to time
the choices are made anew.  A search ends with a model or with a refutation, or undecided when it
runs out of steps.
-/

namespace LogicNet.Sat

/-- How a search for a model ends. -/
inductive Outcome (clauses : List Clause) where
  | model (assignment : Nat → Bool) (h : satisfies assignment clauses = true)
  | refuted (h : ∀ a, satisfies a clauses = false)
  | undecided

namespace Learner

variable {clauses : List Clause}

/-- The unassigned variable with the highest score, the last of several, among those below `n` and
the one found before. -/
def highestBelow (s : Learner clauses) : Nat → Option Nat → Option Nat
  | 0, found => found
  | v + 1, found =>
    if s.trail.holds (2 * v) || s.trail.holds (2 * v + 1) then s.highestBelow v found
    else
      match found with
      | none => s.highestBelow v (some v)
      | some w =>
        if s.scores.getD w 0 < s.scores.getD v 0 then s.highestBelow v (some v)
        else s.highestBelow v found

def nextVariable? (s : Learner clauses) : Option Nat := s.highestBelow s.trail.numVars none

/-- The sequence 1, 1, 2, 1, 1, 2, 4, ...: a power of two follows twice what leads up to it. -/
def patience : Nat → Nat → Nat
  | 0, _ => 1
  | fuel + 1, i =>
    let k := (i + 1).log2
    if i + 1 = 2 ^ k then 2 ^ (k - 1) else patience fuel (i + 1 - 2 ^ k)

/-- Number of conflicts before the choices are next made anew. -/
def conflictLimit (s : Learner clauses) : Nat := 100 * patience s.restarts (s.restarts + 1)

/-- Takes back all choices, and makes room for learned clauses if there is none. -/
def restart (s : Learner clauses) : Learner clauses :=
  let s := { s.undo 0 with conflicts := 0, restarts := s.restarts + 1 }
  if s.numGiven + s.room < s.watches.known.size then { s.forget with room := s.room + 300 } else s

/-- Takes up to `fuel` steps, each a conflict, a restart or a choice. -/
def run : Nat → Learner clauses → Outcome clauses
  | 0, _ => .undecided
  | fuel + 1, s =>
    match s.propagate with
    | (s, some c) =>
      match s.trail.explain c with
      | (_, none) => .undecided
      | (passed, some c) =>
        if h : c.codes = [] then .refuted (Consequence.satisfies_eq_false h)
        else
          let s := { s with conflicts := s.conflicts + 1 }
          let s := (s.bump passed).bump (c.codes.map (· / 2))
          run fuel (s.raiseReward.learn c)
    | (s, none) =>
      if s.conflictLimit ≤ s.conflicts then run fuel s.restart
      else
        match s.nextVariable? with
        | some v => run fuel { s with trail := s.trail.choose (s.trail.phases.getD v 0) }
        | none =>
          let a := fun v => s.trail.holds (2 * v)
          if h : satisfies a clauses = true then .model a h else .undecided

end Learner

def maxSteps : Nat := 2 ^ (40 : Nat)

/-- Searches for a model of clauses whose variables are below `n`. -/
def learnBelow (n : Nat) (clauses : List Clause) : Outcome clauses :=
  match Learner.addAll (clauses.attach.map fun ⟨c, h⟩ => .ofMem c h) (.empty n) with
  | (s, none) => s.run maxSteps
  | (s, some c) =>
    match s.trail.explain c with
    | (_, none) => .undecided
    | (_, some c) =>
      if h : c.codes = [] then .refuted (Consequence.satisfies_eq_false h) else .undecided

/-- What the end of a search among renumbered clauses says about the given ones. -/
def Outcome.ofRenumbered {clauses : List Clause} (n : Numbering clauses) :
    Outcome n.renumber → Outcome clauses
  | .model a h => .model (fun v => a (n.number v)) (n.satisfies_renumber a ▸ h)
  | .refuted h => .refuted fun a => Bool.eq_false_iff.2 fun ha => by
    simpa [n.satisfies_named ha] using h (n.named a)
  | .undecided => .undecided

def variableBound (clauses : List Clause) : Nat :=
  clauses.foldl (fun n c => c.foldl (fun n l => max n (l.var + 1)) n) 0

/-- Searches for a model with learning.  Variables are renumbered if tables by variable would take
more room than the clauses. -/
def learn (clauses : List Clause) : Outcome clauses :=
  let bound := variableBound clauses
  if bound ≤ (clauses.map List.length).sum then learnBelow bound clauses
  else
    match Numbering.of? clauses with
    | none => .undecided
    | some n => .ofRenumbered n (learnBelow n.names.size n.renumber)

end LogicNet.Sat
