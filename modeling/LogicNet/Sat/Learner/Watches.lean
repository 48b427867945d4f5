import LogicNet.Sat.Learner.Trail

/-! # Watched literals

Every known clause watches two of its literals, so only the clauses that watch a literal need a
visit when it becomes false.
-/

namespace LogicNet.Sat

/-- A clause and the two literals that it watches. -/
structure Watched (clauses : List Clause) where
  clause : Consequence clauses
  first : Nat
  second : Nat
  /-- The literals of the clause after the one that was last found to be watched. -/
  ahead : List Nat := []

structure Watches (clauses : List Clause) where
  known : Array (Watched clauses)
  /-- For each literal the places of the clauses that watch it. -/
  watchers : Array (List Nat)

namespace Watches

variable {clauses : List Clause}

/-- No clause is known yet, for the variables below `n`. -/
def empty (n : Nat) : Watches clauses := ⟨#[], .replicate (2 * n) []⟩

def add (w : Watches clauses) (c : Watched clauses) : Watches clauses :=
  let i := w.known.size
  { known := w.known.push c
    watchers := (w.watchers.modify c.first (i :: ·)).modify c.second (i :: ·) }

/-- Puts a clause at place `i` that watches its second literal newly. -/
def replace (w : Watches clauses) (i : Nat) (c : Watched clauses) : Watches clauses where
  known := w.known.setIfInBounds i c
  watchers := w.watchers.modify c.second (i :: ·)

/-- Looks for a literal that can be watched in the place of `k` and beside `other`, and goes on
after it. -/
def find? (t : Trail clauses) (k other : Nat) : List Nat → Option (Nat × List Nat)
  | [] => none
  | m :: rest => if m = other || m = k || t.fails m then find? t k other rest else some (m, rest)

/-- What comes out of a visit: the clauses and the trail after it, and a clause that is false, if
one was met. -/
structure Visit (clauses : List Clause) where
  watches : Watches clauses
  trail : Trail clauses
  conflict? : Option (Consequence clauses)

/-- Visits clauses that watched the literal `k`, which is false now.  Each of them watches another
literal instead, or forces the other literal that it watches, or is false itself, which ends the
visit.  All but the first kind go on watching `k`, together with the clauses in `staying`. -/
def visit (k : Nat) : List Nat → List Nat → Watches clauses → Trail clauses → Visit clauses
  | [], staying, w, t => ⟨{ w with watchers := w.watchers.setIfInBounds k staying }, t, none⟩
  | i :: rest, staying, w, t =>
    match w.known[i]? with
    | none => visit k rest staying w t
    | some c =>
      let other := if c.first = k then c.second else c.first
      if t.holds other then visit k rest (i :: staying) w t
      else
        match find? t k other c.ahead <|> find? t k other c.clause.codes with
        | some (m, ahead) => visit k rest staying (w.replace i ⟨c.clause, other, m, ahead⟩) t
        | none =>
          if t.fails other then
            let staying := rest ++ i :: staying
            ⟨{ w with watchers := w.watchers.setIfInBounds k staying }, t, some c.clause⟩
          else visit k rest (i :: staying) w (t.force other c.clause)

/-- Visits the watchers of the negations of the literals on the trail from place `i` on, until a
clause is false or the end of the trail is reached.  There are at most `fuel` such literals. -/
def propagate : Nat → Nat → Watches clauses → Trail clauses → Visit clauses
  | 0, _, w, t => ⟨w, t, none⟩
  | fuel + 1, i, w, t =>
    match t.literals[i]? with
    | none => ⟨w, t, none⟩
    | some k =>
      let k := Literal.negateCode k
      let watchers := w.watchers.getD k []
      match visit k watchers [] { w with watchers := w.watchers.setIfInBounds k [] } t with
      | ⟨w, t, none⟩ => propagate fuel (i + 1) w t
      | v => v

end Watches

end LogicNet.Sat
